/-
What can be called.

A name stands for the entry that the function table has for it, whatever it looks like. Where the table has none, a name
that begins as a logarithm stands for one if what follows is a base or `B` (`StandsFor`); all other names stand for
nothing (`Uncallable`). What a name stands for takes so many arguments (`Takes`), makes a number of them (`Computes`),
and is shown in a message about their number (`Expects`).

- `callee_of_standsFor`, `callee_of_uncallable`: what a name is found to stand for, and why it stands for nothing;
- `takes_iff`, `Computes.value_eq`: arity and value of what is called are those of the rules;
- `Expects.message_eq`: so is the message.
-/
import Calculator.EvalError
import Calculator.Proofs.Numeral.Bases

namespace Calculator

open Lexer

/-! ## Names -/

/-- how the names of logarithms begin -/
def logPrefix : Text := ['l', 'o', 'g', '_']

/-- what a name stands for in a call -/
inductive StandsFor (functions : FunctionTable) (name : String) : Callee → Prop where
  | entry {f : Builtin} (h : functions.lookup name = some f) : StandsFor functions name (.builtin f)
  | logBase {base : Text} {value : Binary64} (hfree : functions.lookup name = none)
      (hname : name.toList = logPrefix ++ base) (hbase : DenotesBase base value) :
      StandsFor functions name (.logBase base value)
  | logAnyBase (hfree : functions.lookup name = none) (hname : name.toList = logPrefix ++ ['B']) :
      StandsFor functions name .logAnyBase

/-- why a name stands for nothing in a call -/
inductive Uncallable (functions : FunctionTable) (name : String) : CallFault → Prop where
  | invalidBase {base : Text} (hfree : functions.lookup name = none) (hname : name.toList = logPrefix ++ base)
      (hany : base ≠ ['B']) (hbase : ∀ value, ¬ DenotesBase base value) :
      Uncallable functions name (.invalidBase base)
  | unknown (hfree : functions.lookup name = none) (hname : ¬ logPrefix <+: name.toList) :
      Uncallable functions name (.unknown name)

section

variable {base : Text} {name : String} {functions : FunctionTable}

/-- A base in a name is what denotes one. -/
theorem base?_eq_some_iff (h : ∀ c ∈ base, isNamePart c) {value : Binary64} :
    (if '_' ∈ base then none else numeral? base) = some value ↔ DenotesBase base value := by
  constructor
  · intro hvalue
    split at hvalue
    · cases hvalue
    · exact (numeral?_eq_some_iff h).1 hvalue
  · intro hbase
    rw [if_neg hbase.underscore_notMem]
    exact (numeral?_eq_some_iff h).2 hbase

theorem base?_eq_none (h : ∀ c ∈ base, isNamePart c) (hbase : ∀ value, ¬ DenotesBase base value) :
    (if '_' ∈ base then none else numeral? base) = none :=
  Option.eq_none_iff_forall_ne_some.2 fun value hvalue => hbase value ((base?_eq_some_iff h).1 hvalue)

/-- The letter for any base is no base itself. -/
theorem not_denotesBase_any (value : Binary64) : ¬ DenotesBase ['B'] value := by
  intro hbase
  have hread : numeral? ['B'] = none := by decide +kernel
  rw [(numeral?_eq_some_iff (List.forall_mem_singleton.2 rfl)).2 hbase] at hread
  cases hread

theorem logarithm_prefix (base : Text) :
    logarithm (logPrefix ++ base) =
      match if '_' ∈ base then none else numeral? base with
      | some value => .ok (.logBase base value)
      | none => if base = ['B'] then .ok .logAnyBase else .error (.invalidBase base) := rfl

theorem logarithm_of_not_prefix {text : Text} (h : ¬ logPrefix <+: text) :
    logarithm text = .error (.unknown (String.ofList text)) := by
  unfold logarithm
  split
  · rename_i base
    exact absurd ⟨base, rfl⟩ h
  · rfl

end

/-- A name stands for something or for nothing. -/
theorem standsFor_or_uncallable (functions : FunctionTable) (name : String) :
    (∃ callee, StandsFor functions name callee) ∨ ∃ fault, Uncallable functions name fault := by
  cases hentry : functions.lookup name with
  | some f => exact .inl ⟨_, .entry hentry⟩
  | none =>
    by_cases hprefix : logPrefix <+: name.toList
    · obtain ⟨base, hname⟩ := hprefix
      by_cases hbase : ∃ value, DenotesBase base value
      · obtain ⟨value, hbase⟩ := hbase
        exact .inl ⟨_, .logBase hentry hname.symm hbase⟩
      · by_cases hany : base = ['B']
        · exact .inl ⟨_, .logAnyBase hentry (hany ▸ hname.symm)⟩
        · exact .inr ⟨_, .invalidBase hentry hname.symm hany (not_exists.1 hbase)⟩
    · exact .inr ⟨_, .unknown hentry hprefix⟩

section

variable {name : String} (hname : IsNameText name.toList)

include hname

theorem isNamePart_of_suffix {base : Text} (heq : name.toList = logPrefix ++ base) : ∀ c ∈ base, isNamePart c := by
  obtain ⟨first, others, htext, -, hothers, -⟩ := hname
  intro c hc
  rw [htext] at heq
  obtain ⟨-, rfl⟩ := List.cons.inj heq
  exact hothers c (List.mem_append_right _ hc)

theorem callee_of_standsFor {env : Environment} {callee : Callee} (h : StandsFor env.functions name callee) :
    env.callee name = .ok callee := by
  cases h with
  | entry hentry => rw [Environment.callee, hentry]
  | logBase hfree htext hbase =>
    have hread := (base?_eq_some_iff (isNamePart_of_suffix hname htext)).2 hbase
    rw [Environment.callee, hfree, htext, logarithm_prefix, hread]
  | logAnyBase hfree htext =>
    have hread := base?_eq_none (isNamePart_of_suffix hname htext) not_denotesBase_any
    rw [Environment.callee, hfree, htext, logarithm_prefix, hread]
    rfl

theorem callee_of_uncallable {env : Environment} {fault : CallFault} (h : Uncallable env.functions name fault) :
    env.callee name = .error fault := by
  cases h with
  | invalidBase hfree htext hany hbase =>
    have hread := base?_eq_none (isNamePart_of_suffix hname htext) hbase
    rw [Environment.callee, hfree, htext, logarithm_prefix, hread]
    exact if_neg hany
  | unknown hfree hprefix =>
    rw [Environment.callee, hfree, logarithm_of_not_prefix hprefix, String.ofList_toList]

end

/-! ## Functions -/

/-- the numbers of arguments that what is called takes -/
inductive Takes : Callee → Nat → Prop where
  | unary {f : Builtin} (h : f ≠ .gcd) : Takes (.builtin f) 1
  | gcd (others : Nat) : Takes (.builtin .gcd) (others + 1)
  | logBase (text : Text) (base : Binary64) : Takes (.logBase text base) 1
  | logAnyBase : Takes .logAnyBase 2

/-- `Computes callee xs y`: what is called makes `y` of the numbers `xs`. -/
inductive Computes : Callee → List Binary64 → Binary64 → Prop where
  | unary {f : Builtin} {function : Binary64 → Binary64} (h : f.unary? = some function) (x : Binary64) :
      Computes (.builtin f) [x] (function x)
  /-- A common divisor is found with one number after the other. -/
  | gcd (x : Binary64) (others : List Binary64) :
      Computes (.builtin .gcd) (x :: others) (others.foldl Binary64.gcd x)
  | logBase (text : Text) (base x : Binary64) : Computes (.logBase text base) [x] (x.ln / base.ln)
  | logAnyBase (x base : Binary64) : Computes .logAnyBase [x, base] (x.ln / base.ln)

/-- how many arguments a message says are expected, and how it shows what is called -/
inductive Expects : Callee → String → String → Prop where
  | unary {f : Builtin} (h : f ≠ .gcd) : Expects (.builtin f) "1 argument" s!"{f.name}(x)"
  | gcd : Expects (.builtin .gcd) "at least 1 argument" "gcd(x, ...)"
  | logBase (text : Text) (base : Binary64) :
      Expects (.logBase text base) "1 argument" s!"log_{String.ofList text}(x)"
  | logAnyBase : Expects .logAnyBase "2 arguments" "log_B(x, base)"

/-- Every function but the greatest common divisor is one of one number. -/
theorem Builtin.exists_unary {f : Builtin} (h : f ≠ .gcd) :
    (∃ function, f.unary? = some function) ∧ (Callee.builtin f).arity = .exactly 1 ∧
      (Callee.builtin f).usage = s!"{f.name}(x)" := by
  cases f with
  | gcd => exact absurd rfl h
  | _ => exact ⟨⟨_, rfl⟩, rfl, rfl⟩

section

variable {callee : Callee} {count : Nat} {xs : List Binary64} {y : Binary64}

/-- **The arity** accepts the numbers of arguments that the rules take. -/
theorem takes_iff : Takes callee count ↔ callee.arity.accepts count := by
  constructor
  · intro h
    cases h with
    | unary hf => rw [(Builtin.exists_unary hf).2.1]; rfl
    | gcd others => exact decide_eq_true (Nat.succ_pos others)
    | logBase text base => rfl
    | logAnyBase => rfl
  · intro h
    cases callee with
    | builtin f =>
      by_cases hf : f = .gcd
      · subst hf
        obtain ⟨others, rfl⟩ := Nat.exists_eq_add_of_le' (of_decide_eq_true h : 1 ≤ count)
        exact .gcd others
      · rw [(Builtin.exists_unary hf).2.1] at h
        obtain rfl : count = 1 := eq_of_beq h
        exact .unary hf
    | logBase text base =>
      obtain rfl : count = 1 := eq_of_beq h
      exact .logBase text base
    | logAnyBase =>
      obtain rfl : count = 2 := eq_of_beq h
      exact .logAnyBase

/-- What the rules make of numbers, they make of as many as are taken. -/
theorem Computes.takes (h : Computes callee xs y) : Takes callee xs.length := by
  cases h with
  | @unary f function hfunction x =>
    refine .unary ?_
    rintro rfl
    cases hfunction
  | gcd x others => exact .gcd others.length
  | logBase text base x => exact .logBase text base
  | logAnyBase x base => exact .logAnyBase

/-- **The value** of what is called is what the rules make of the arguments. -/
theorem Computes.value_eq (h : Computes callee xs y) : callee.value xs = y := by
  cases h with
  | unary hfunction x => simp only [Callee.value, hfunction]
  | gcd x others => rfl
  | logBase text base x => rfl
  | logAnyBase x base => rfl

/-- The rules make something of every number of arguments that is taken. -/
theorem exists_computes (h : Takes callee xs.length) : ∃ y, Computes callee xs y := by
  generalize hcount : xs.length = count at h
  cases h with
  | unary hf =>
    obtain ⟨function, hfunction⟩ := (Builtin.exists_unary hf).1
    obtain ⟨x, rfl⟩ := List.length_eq_one_iff.1 hcount
    exact ⟨_, .unary hfunction x⟩
  | gcd others =>
    obtain ⟨x, others, rfl⟩ := List.exists_cons_of_length_eq_add_one hcount
    exact ⟨_, .gcd x others⟩
  | logBase text base =>
    obtain ⟨x, rfl⟩ := List.length_eq_one_iff.1 hcount
    exact ⟨_, .logBase text base x⟩
  | logAnyBase =>
    obtain ⟨x, base, rfl⟩ := List.length_eq_two.1 hcount
    exact ⟨_, .logAnyBase x base⟩

theorem exists_expects (callee : Callee) : ∃ expected usage, Expects callee expected usage := by
  cases callee with
  | builtin f =>
    by_cases hf : f = .gcd
    · exact hf ▸ ⟨_, _, .gcd⟩
    · exact ⟨_, _, .unary hf⟩
  | logBase text base => exact ⟨_, _, .logBase text base⟩
  | logAnyBase => exact ⟨_, _, .logAnyBase⟩

theorem Expects.message_eq {expected usage : String} (h : Expects callee expected usage) (count : Nat) :
    (EvalFault.wrongArity callee count).message = s!"Expected {expected}, found {count}. Usage: `{usage}`" := by
  have hone : (Arity.exactly 1).message = "1 argument" := by decide +kernel
  have hparts : callee.arity.message = expected ∧ callee.usage = usage := by
    cases h with
    | unary hf =>
      obtain ⟨-, harity, husage⟩ := Builtin.exists_unary hf
      exact ⟨harity ▸ hone, husage⟩
    | gcd => exact ⟨by decide +kernel, rfl⟩
    | logBase text base => exact ⟨hone, rfl⟩
    | logAnyBase => exact ⟨by decide +kernel, rfl⟩
  rw [← hparts.1, ← hparts.2]
  rfl

end

end Calculator
