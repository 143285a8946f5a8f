/-
The names that the value of an expression depends on.

An expression has names that it calls and names that stand for numbers. Evaluation asks the environment about these
alone: about a called name, for its entry in the function table, and about a name that stands for a number, for the
variable, unless a constant has the name. A logarithm `log_S` is found where the table has no entry of its name, so
for such a name it matters that there is none.

- `Environment.Agree`: two environments say the same about the names of an expression;
- `Environment.Agree.of_mem_arguments`, `Environment.Agree.of_mem_elements`: then they do so about those of its parts;
- `Environment.agree_assign`: a variable with the name of a constant, or with one that is not there, does not count;
- `Expr.eval_eq_of_agree`: expressions have one value, one error and one log in environments that agree.
-/
import Calculator.Proofs.Expr.Lexemes
import Calculator.Proofs.Infix.Reduction

namespace Calculator

namespace Expr

/-! ## Names -/

mutual

/-- the names that are called in an expression, at any depth -/
def callees : Expr → List String
  | call name arguments => name :: calleesEach arguments
  | sequence elements => calleesEach elements
  | _ => []

def calleesEach : List Expr → List String
  | [] => []
  | e :: es => e.callees ++ calleesEach es

end

mutual

/-- the names that stand for numbers in an expression, at any depth -/
def variableNames : Expr → List String
  | var name => [name]
  | call _ arguments => variableNamesEach arguments
  | sequence elements => variableNamesEach elements
  | _ => []

def variableNamesEach : List Expr → List String
  | [] => []
  | e :: es => e.variableNames ++ variableNamesEach es

end

theorem calleesEach_eq_flatMap (es : List Expr) : calleesEach es = es.flatMap callees := by
  induction es with
  | nil => rfl
  | cons e es ih => rw [calleesEach, ih, List.flatMap_cons]

theorem variableNamesEach_eq_flatMap (es : List Expr) : variableNamesEach es = es.flatMap variableNames := by
  induction es with
  | nil => rfl
  | cons e es ih => rw [variableNamesEach, ih, List.flatMap_cons]

end Expr

/-! ## Environments that agree -/

namespace Environment

/-- Two environments have the same entries, or none, for the names that an expression calls, and the same variables for
those that stand for numbers and are no constants. -/
structure Agree (env env' : Environment) (e : Expr) : Prop where
  functions : ∀ name ∈ e.callees, env.functions.lookup name = env'.functions.lookup name
  variableNames : ∀ name ∈ e.variableNames, constants.lookup name = none → env.vars.lookup name = env'.vars.lookup name

section

variable {env env' : Environment} {e : Expr} {es : List Expr} {name : String}

theorem Agree.of_mem_arguments (h : env.Agree env' (.call name es)) (he : e ∈ es) : env.Agree env' e := by
  constructor
  · intro other hother
    refine h.functions other (List.mem_cons_of_mem _ ?_)
    rw [Expr.calleesEach_eq_flatMap]
    exact List.mem_flatMap_of_mem he hother
  · intro other hother
    refine h.variableNames other ?_
    rw [Expr.variableNames, Expr.variableNamesEach_eq_flatMap]
    exact List.mem_flatMap_of_mem he hother

theorem Agree.of_mem_elements (h : env.Agree env' (.sequence es)) (he : e ∈ es) : env.Agree env' e := by
  constructor
  · intro other hother
    refine h.functions other ?_
    rw [Expr.callees, Expr.calleesEach_eq_flatMap]
    exact List.mem_flatMap_of_mem he hother
  · intro other hother
    refine h.variableNames other ?_
    rw [Expr.variableNames, Expr.variableNamesEach_eq_flatMap]
    exact List.mem_flatMap_of_mem he hother

/-- The same entry, or none, in the function table is the same function, or the same logarithm. -/
theorem callee_congr (h : env.functions.lookup name = env'.functions.lookup name) :
    env.callee name = env'.callee name := by
  rw [callee, callee, h]

/-- A constant has its value whatever the variables are. -/
theorem lookup?_congr (h : constants.lookup name = none → env.vars.lookup name = env'.vars.lookup name) :
    env.lookup? name = env'.lookup? name := by
  unfold lookup?
  cases hconstant : constants.lookup name with
  | some value => rfl
  | none => rw [h hconstant]

/-- An assignment to a name that the expression does not look up is not seen. -/
theorem agree_assign (env : Environment) (value : Binary64)
    (h : (constants.lookup name).isSome ∨ name ∉ e.variableNames) : (env.assign name value).Agree env e := by
  refine ⟨fun _ _ => rfl, fun other hother hconstant => ?_⟩
  have hne : other ≠ name := by
    rintro rfl
    rcases h with h | h
    · rw [hconstant] at h
      cases h
    · exact h hother
  exact (Variables.lookup_assign env.vars name other value).trans (if_neg hne)

end

end Environment

/-! ## Evaluation -/

theorem Expr.evalEach_congr {env env' : Environment} {es : List Expr} (h : ∀ e ∈ es, e.eval env = e.eval env') :
    evalEach env es = evalEach env' es := by
  rw [evalEach_eq_map, evalEach_eq_map]
  exact List.map_congr_left h

/-- Evaluation is the same in environments that agree: its result, and what it logs. -/
theorem Expr.eval_eq_of_agree {env env' : Environment} (e : Expr) (h : env.Agree env' e) :
    e.eval env = e.eval env' := by
  induction e using Expr.induct with
  | number value => rfl
  | var name =>
    have hlookup : env.lookup? name = env'.lookup? name :=
      Environment.lookup?_congr (h.variableNames name (List.mem_singleton_self name))
    rw [eval, eval, hlookup]
  | call name arguments ih =>
    have hcallee : env.callee name = env'.callee name := Environment.callee_congr (h.functions name List.mem_cons_self)
    have harguments : evalEach env arguments = evalEach env' arguments :=
      evalEach_congr fun e he => ih e he (h.of_mem_arguments he)
    rw [eval, eval, evalCall, evalCall, hcallee, harguments]
  | sequence elements ih =>
    have helements : evalEach env elements = evalEach env' elements :=
      evalEach_congr fun e he => ih e he (h.of_mem_elements he)
    rw [eval, eval, helements]
  | operator op => rfl

/-- **Only the names of an expression count.** In environments that say the same about the names that an expression
calls and about its variables, constants aside, it has the same value, or the same error in the same context. An
assignment to the name of a constant, or to a name that does not stand for a number in it, changes nothing. -/
theorem Expr.eval_depends_on_names (e : Expr) :
    (∀ env env' : Environment, env.Agree env' e → e.eval env = e.eval env') ∧
      ∀ (env : Environment) (name : String) (value : Binary64),
        (constants.lookup name).isSome ∨ name ∉ e.variableNames → e.eval (env.assign name value) = e.eval env :=
  ⟨fun _ _ => e.eval_eq_of_agree, fun env _ value h => e.eval_eq_of_agree (Environment.agree_assign env value h)⟩

/-- `f(x) + log_2(e) * gcd(x)` -/
def mixedNames : Expr :=
  .sequence [.call "f" [.sequence [.var "x"]], .operator .add, .call "log_2" [.sequence [.var "e"]],
    .operator .multiply, .call "gcd" [.sequence [.var "x"]]]

/-- an environment in which `f` is a function and `gcd` is none -/
def bareEnvironment : Environment := ⟨[("x", .ofNat 4)], [("f", .sqrt)]⟩

/-- the same, with a function that nothing calls and a variable that has the name of a constant -/
def crowdedEnvironment : Environment :=
  ⟨[("e", .ofNat 1), ("f", .ofNat 2), ("x", .ofNat 4)], [("round", .ln), ("f", .sqrt)]⟩

/-- Neither the function beside those called nor the variable behind the constant is seen, and the missing function
is an error in both. -/
theorem eval_mixedNames :
    bareEnvironment.Agree crowdedEnvironment mixedNames ∧
      mixedNames.eval bareEnvironment = mixedNames.eval crowdedEnvironment ∧
      mixedNames.eval (bareEnvironment.assign "e" (.ofNat 1)) = mixedNames.eval bareEnvironment ∧
      "f" ∉ mixedNames.variableNames ∧
      mixedNames.eval (bareEnvironment.assign "f" (.ofNat 1)) = mixedNames.eval bareEnvironment := by
  have hagree : bareEnvironment.Agree crowdedEnvironment mixedNames := ⟨by decide +kernel, by decide +kernel⟩
  have hf : "f" ∉ mixedNames.variableNames := by decide +kernel
  exact ⟨hagree, (Expr.eval_depends_on_names mixedNames).1 _ _ hagree,
    (Expr.eval_depends_on_names mixedNames).2 _ _ _ (.inl rfl), hf,
    (Expr.eval_depends_on_names mixedNames).2 _ _ _ (.inr hf)⟩

end Calculator
