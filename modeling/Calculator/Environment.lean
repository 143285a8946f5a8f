/-
The names that an expression can refer to.

Constants come before variables, and both are looked up by name. A function table is an argument of its own: it may be
any selection of the built-in functions under any names. Functions that a host defines itself and adds to a table are
left out; they would be given their arguments unevaluated. A call whose name is not in the table may still be one of a
logarithm: `log_` and a decimal numeral without underscores, or `log_B`.
-/
import Calculator.Function

namespace Calculator

/-- values by name; each name is there at most once -/
abbrev Variables := List (String × Binary64)

namespace Variables

def erase (vars : Variables) (name : String) : Variables := vars.filter (·.1 != name)

theorem lookup_erase (vars : Variables) (name other : String) :
    (vars.erase name).lookup other = if other = name then none else vars.lookup other := by
  induction vars with
  | nil => simp [erase]
  | cons p vars ih =>
    obtain ⟨key, value⟩ := p
    unfold erase at ih ⊢
    rw [List.filter_cons]
    by_cases hkey : key = name
    · subst hkey
      by_cases ho : other = key
      · simp [ho] at ih ⊢; exact ih
      · simp [ho, List.lookup_cons, beq_eq_false_iff_ne.2 ho] at ih ⊢; exact ih
    · by_cases ho : other = key
      · subst ho; simp [hkey]
      · simp [hkey, List.lookup_cons, beq_eq_false_iff_ne.2 ho] at ih ⊢; exact ih

/-- the variables after an assignment -/
def assign (vars : Variables) (name : String) (value : Binary64) : Variables := vars.erase name ++ [(name, value)]

/-- An assignment changes one name and no other. -/
theorem lookup_assign (vars : Variables) (name other : String) (value : Binary64) :
    (vars.assign name value).lookup other = if other = name then some value else vars.lookup other := by
  unfold assign
  rw [List.lookup_append, lookup_erase]
  by_cases h : other = name
  · simp [h]
  · simp [h, List.lookup_cons, beq_eq_false_iff_ne.2 h]

end Variables

/-- the functions of an environment, by name; built-in ones only -/
abbrev FunctionTable := List (String × Builtin)

/-- every built-in function, under its own name -/
def FunctionTable.default : FunctionTable := Builtin.all.map fun f => (f.name, f)

structure Environment where
  vars : Variables := []
  functions : FunctionTable := FunctionTable.default

/-- why a name cannot be called -/
inductive CallFault where
  | invalidBase (base : Text)
  | unknown (name : String)
  deriving DecidableEq

def constants : List (String × Binary64) :=
  [("pi", Binary64.pi), ("e", Binary64.e), ("inf", .infinite false), ("true", Binary64.ofNat 1),
   ("false", Binary64.zero)]

namespace Environment

/-- the value of a constant or, where there is none of that name, of a variable -/
def lookup? (env : Environment) (name : String) : Option Binary64 :=
  (constants.lookup name).or (env.vars.lookup name)

/-- the environment after an assignment -/
def assign (env : Environment) (name : String) (value : Binary64) : Environment :=
  { env with vars := env.vars.assign name value }

end Environment

/-- the logarithm that a name stands for, if it starts as one -/
def logarithm (name : Text) : Except CallFault Callee :=
  match name with
  | 'l' :: 'o' :: 'g' :: '_' :: base =>
    match if '_' ∈ base then none else numeral? base with
    | some value => .ok (.logBase base value)
    | none => if base = ['B'] then .ok .logAnyBase else .error (.invalidBase base)
  | _ => .error (.unknown (String.ofList name))

/-- what the name of a call stands for: an entry of the function table, or else a logarithm -/
def Environment.callee (env : Environment) (name : String) : Except CallFault Callee :=
  match env.functions.lookup name with
  | some f => .ok (.builtin f)
  | none => logarithm name.toList

end Calculator
