/-
What a call comes to, by rules.

A call is refused for its name first, and then for the number of its arguments (`CallRefused`); only then are the
arguments evaluated, from left to right, up to the first that has no value (`CallRun`). The rules say themselves what
names stand for, and what is made of the values.

- `all_of_values`, `all_of_error`: arguments are evaluated up to the first that fails;
- `exists_callRun`, `CallRun.eval_eq`: some rule applies to a call, and what it says is what the call is evaluated to;
- `Expr.eval_call_iff`: evaluating a call is running it by the rules.
-/
import Calculator.Proofs.Expr.Callees
import Calculator.Proofs.Expr.Names
import Calculator.Proofs.Expr.RoundTrip

namespace Calculator

open Lexer

/-! ## Arguments -/

/-- an argument has a value -/
def HasResult (env : Environment) (e : Expr) (x : Binary64) : Prop := (e.eval env).result = .ok x

/-- what evaluating arguments logs, one after the other -/
def logsOf (env : Environment) (es : List Expr) : List OrderStep := es.flatMap fun e => (e.eval env).log

section

variable {env : Environment} {es : List Expr}

/-- Arguments that all have values are evaluated one after the other. -/
theorem all_of_values {xs : List Binary64} (h : List.Forall₂ (HasResult env) es xs) :
    Logged.all (es.map (Expr.eval env)) = ⟨logsOf env es, .ok xs⟩ := by
  induction h with
  | nil => rfl
  | @cons e x es xs he hes ih =>
    have hx : (e.eval env).result = .ok x := he
    simp [Logged.all, Logged.bind_eq, hx, ih, logsOf]

/-- The first argument without a value ends the evaluation of arguments. -/
theorem all_of_error {e : Expr} {after : List Expr} {err : EvalError} (hes : ∀ e ∈ es, ∃ x, HasResult env e x)
    (he : (e.eval env).result = .error err) :
    Logged.all ((es ++ e :: after).map (Expr.eval env)) = ⟨logsOf env es ++ (e.eval env).log, .error err⟩ := by
  induction es with
  | nil => simp [Logged.all, Logged.bind_eq, he, logsOf]
  | cons e' es ih =>
    obtain ⟨⟨x, hx⟩, hes⟩ := List.forall_mem_cons.1 hes
    have hx : (e'.eval env).result = .ok x := hx
    rw [List.cons_append, List.map_cons, Logged.all, ih hes]
    simp [Logged.bind_eq, hx, logsOf]

/-- Arguments all have values, or there is a first without one. -/
theorem values_or_first_error (env : Environment) (es : List Expr) :
    (∃ xs, List.Forall₂ (HasResult env) es xs) ∨
      ∃ before e after err, es = before ++ e :: after ∧ (∀ e ∈ before, ∃ x, HasResult env e x) ∧
        (e.eval env).result = .error err := by
  induction es with
  | nil => exact .inl ⟨[], .nil⟩
  | cons e es ih =>
    cases he : (e.eval env).result with
    | error err => exact .inr ⟨[], e, es, err, rfl, by simp, he⟩
    | ok x =>
      rcases ih with ⟨xs, hxs⟩ | ⟨before, e', after, err, rfl, hbefore, herr⟩
      · exact .inl ⟨x :: xs, .cons he hxs⟩
      · exact .inr ⟨e :: before, e', after, err, rfl, List.forall_mem_cons.2 ⟨⟨x, he⟩, hbefore⟩, herr⟩

end

/-! ## Calls -/

/-- A call is refused: the error is of the call itself, and no argument has been evaluated. -/
def refusal (name : String) (arguments : List Expr) (fault : EvalFault) : Logged Binary64 :=
  ⟨[], .error ⟨fault, [.node (.call name arguments)]⟩⟩

/-- why a call with so many arguments is refused, and the text that says so -/
inductive CallRefused (functions : FunctionTable) (name : String) (count : Nat) : EvalFault → String → Prop where
  | invalidBase {base : Text} (h : Uncallable functions name (.invalidBase base)) :
      CallRefused functions name count (.call (.invalidBase base))
        s!"Invalid log base: {String.ofList base}, specify the base in decimal, for example: `log_2(x)`"
  | unknown {other : String} (h : Uncallable functions name (.unknown other)) :
      CallRefused functions name count (.call (.unknown other)) s!"Unknown function: '{other}'"
  | wrongCount {callee : Callee} {expected usage : String} (h : StandsFor functions name callee)
      (hcount : ¬ Takes callee count) (hexpects : Expects callee expected usage) :
      CallRefused functions name count (.wrongArity callee count)
        s!"Expected {expected}, found {count}. Usage: `{usage}`"

theorem CallRefused.message_eq {functions : FunctionTable} {name : String} {count : Nat} {fault : EvalFault}
    {text : String} (h : CallRefused functions name count fault text) : fault.message = text := by
  cases h with
  | invalidBase h => rfl
  | unknown h => rfl
  | wrongCount h hcount hexpects => exact hexpects.message_eq count

/-- how a call runs, and what it comes to -/
inductive CallRun (env : Environment) (name : String) (arguments : List Expr) : Logged Binary64 → Prop where
  /-- The name stands for nothing, or there are too many arguments, or too few. -/
  | refused {fault : EvalFault} {text : String} (h : CallRefused env.functions name arguments.length fault text) :
      CallRun env name arguments (refusal name arguments fault)
  /-- All arguments have values. -/
  | value {callee : Callee} {xs : List Binary64} {y : Binary64} (h : StandsFor env.functions name callee)
      (hxs : List.Forall₂ (HasResult env) arguments xs) (hy : Computes callee xs y) :
      CallRun env name arguments ⟨logsOf env arguments, .ok y⟩
  /-- An argument has no value; those before it do, and those behind it are not evaluated. -/
  | argument {callee : Callee} {before after : List Expr} {e : Expr} {err : EvalError}
      (h : StandsFor env.functions name callee) (hcount : Takes callee arguments.length)
      (hsplit : arguments = before ++ e :: after) (hbefore : ∀ e ∈ before, ∃ x, HasResult env e x)
      (he : (e.eval env).result = .error err) :
      CallRun env name arguments
        ⟨logsOf env before ++ (e.eval env).log, .error (err.inside (.node (.call name arguments)))⟩

section

variable {env : Environment} {name : String} {arguments : List Expr}

/-- A name that can be called has its arguments counted, and then evaluated. -/
theorem evalCall_of_callee {callee : Callee} (h : env.callee name = .ok callee) :
    evalCall env name (arguments.map (Expr.eval env)) =
      if callee.arity.accepts arguments.length then
        Logged.all (arguments.map (Expr.eval env)) >>= fun xs => pure (callee.value xs)
      else .fail (.wrongArity callee arguments.length) := by
  rw [evalCall, h, List.length_map]
  rfl

/-- A call with as many arguments as it takes, which all have values, has the value of the function on them. -/
theorem eval_of_values {callee : Callee} (h : env.callee name = .ok callee)
    (harity : callee.arity.accepts arguments.length) {xs : List Binary64}
    (hxs : List.Forall₂ (HasResult env) arguments xs) :
    (Expr.call name arguments).eval env = ⟨logsOf env arguments, .ok (callee.value xs)⟩ := by
  rw [Expr.eval, Expr.evalEach_eq_map, evalCall_of_callee h, if_pos harity, all_of_values hxs]
  simp [Logged.bind_eq, Logged.inside, mapError_ok]

/-- Some rule applies to a call. -/
theorem exists_callRun (env : Environment) (name : String) (arguments : List Expr) :
    ∃ r, CallRun env name arguments r := by
  rcases standsFor_or_uncallable env.functions name with ⟨callee, hcallee⟩ | ⟨fault, hfault⟩
  · by_cases hcount : Takes callee arguments.length
    · rcases values_or_first_error env arguments with ⟨xs, hxs⟩ | ⟨before, e, after, err, hsplit, hbefore, he⟩
      · obtain ⟨y, hy⟩ := exists_computes (hxs.length_eq ▸ hcount)
        exact ⟨_, .value hcallee hxs hy⟩
      · exact ⟨_, .argument hcallee hcount hsplit hbefore he⟩
    · obtain ⟨expected, usage, hexpects⟩ := exists_expects callee
      exact ⟨_, .refused (.wrongCount hcallee hcount hexpects)⟩
  · cases fault with
    | invalidBase base => exact ⟨_, .refused (.invalidBase hfault)⟩
    | unknown other => exact ⟨_, .refused (.unknown hfault)⟩

/-- A call that is refused fails before an argument is evaluated. -/
theorem CallRefused.eval_eq (hname : IsNameText name.toList) {fault : EvalFault} {text : String}
    (h : CallRefused env.functions name arguments.length fault text) :
    (Expr.call name arguments).eval env = refusal name arguments fault := by
  cases h with
  | invalidBase h =>
    rw [Expr.eval, evalCall, callee_of_uncallable hname h]
    rfl
  | unknown h =>
    rw [Expr.eval, evalCall, callee_of_uncallable hname h]
    rfl
  | wrongCount h hcount =>
    rw [Expr.eval, Expr.evalEach_eq_map, evalCall_of_callee (callee_of_standsFor hname h),
      if_neg (mt takes_iff.2 hcount)]
    rfl

/-- What a call comes to by the rules, it is evaluated to. -/
theorem CallRun.eval_eq (hname : IsNameText name.toList) {r : Logged Binary64} (h : CallRun env name arguments r) :
    (Expr.call name arguments).eval env = r := by
  cases h with
  | refused h => exact h.eval_eq hname
  | @value callee xs y h hxs hy =>
    have hcount : Takes callee arguments.length := hxs.length_eq ▸ hy.takes
    rw [← hy.value_eq]
    exact eval_of_values (callee_of_standsFor hname h) (takes_iff.1 hcount) hxs
  | argument h hcount hsplit hbefore he =>
    rw [Expr.eval, Expr.evalEach_eq_map, evalCall_of_callee (callee_of_standsFor hname h),
      if_pos (takes_iff.1 hcount), hsplit, all_of_error hbefore he]
    rfl

end

/-- A name that is called is one of the lexemes. -/
theorem Expr.name_mem_lexemes {name : String} {e : Expr} (h : name ∈ e.callees) : .name name ∈ e.lexemes := by
  induction e using Expr.induct with
  | number value => cases h
  | var other => cases h
  | call other arguments ih =>
    rcases List.mem_cons.1 h with rfl | h
    · exact List.mem_cons_self
    · rw [calleesEach_eq_flatMap, List.mem_flatMap] at h
      obtain ⟨e, he, hmem⟩ := h
      have hinside : .name name ∈ withCommas (lexemesEach arguments) := by
        rw [lexemesEach_eq_map]
        exact mem_withCommas (List.mem_map_of_mem he) (ih e he hmem)
      simp [lexemes, hinside]
  | sequence elements ih =>
    rw [callees, calleesEach_eq_flatMap, List.mem_flatMap] at h
    obtain ⟨e, he, hmem⟩ := h
    rw [lexemes, lexemesEach_eq_map]
    exact List.mem_flatten_of_mem (List.mem_map_of_mem he) (ih e he hmem)
  | operator op => cases h

/-- **Calls run by their rules.** Whatever functions the table has, a call of any name that a line can call comes to
what the rules say, and to nothing else. So an entry of the table is run whatever its name is; without one, only the
name of a logarithm to a base, or to any base, can be called. A call that is refused for its name or for the number of
its arguments is so before an argument is evaluated, with the text that the rules give, and of its arguments the first
without a value gives the error. -/
theorem Expr.eval_call_iff {line : Text} {e : Expr} (he : Expr.parse line = .ok e) {name : String}
    (hname : name ∈ e.callees) (env : Environment) (arguments : List Expr) :
    (∀ r, (call name arguments).eval env = r ↔ CallRun env name arguments r) ∧
      ∀ fault text, CallRefused env.functions name arguments.length fault text → fault.message = text := by
  have htext := isNameText_of_parse he (name_mem_lexemes hname)
  refine ⟨fun r => ⟨?_, CallRun.eval_eq htext⟩, fun fault text h => h.message_eq⟩
  rintro rfl
  obtain ⟨r, hr⟩ := exists_callRun env name arguments
  exact (hr.eval_eq htext).symm ▸ hr

/-- calls of functions that take other numbers of arguments, and of what is no function -/
def callsLine : Text := "log_1e2(3, y, z) + gcd(12, 18) + abs(1, 2) + log_B(8) + log_1_0(2)".toList

/-- an argument that is a number -/
def argument (n : Nat) : Expr := .sequence [.number (.ofNat n)]

/-- an argument with a value, one without, and one behind it -/
def crowdedArguments : List Expr := [argument 3, .sequence [.var "y"], .sequence [.var "z"]]

def callsSequence : Expr :=
  .sequence [.call "log_1e2" crowdedArguments, .operator .add, .call "gcd" [argument 12, argument 18], .operator .add,
    .call "abs" [argument 1, argument 2], .operator .add, .call "log_B" [argument 8], .operator .add,
    .call "log_1_0" [argument 2]]

/-- `1e2` is a base. -/
theorem denotesBase_hundred : DenotesBase ['1', 'e', '2'] (.ofNat 100) := by
  have hdigits : ofDigits 10 ['1'] * 10 ^ ofDigits 10 ['2'] = 100 := by decide
  have hexponent : IsExponent 'e' ['2'] := ⟨.inl rfl, List.cons_ne_nil _ _, List.forall_mem_singleton.2 rfl⟩
  rw [← hdigits]
  exact .scientific (List.cons_ne_nil _ _) (List.forall_mem_singleton.2 rfl) hexponent

/-- Twelve and eighteen have the divisor six in common, minus three has the absolute value three, and the logarithm of
eight to the base two is a quotient. The absolute value of two numbers is refused, and so are the logarithms of three
numbers to the base `100` and of one number without a base. As an entry of the table, the name of the first logarithm is
that of another function; it takes the three arguments, and the second is the first without a value. -/
theorem eval_call_iff_callsLine :
    Expr.parse callsLine = .ok callsSequence ∧
      (∀ name ∈ ["log_1e2", "gcd", "abs", "log_B", "log_1_0"], name ∈ callsSequence.callees) ∧
      (Expr.call "gcd" [argument 12, argument 18]).eval {} = ⟨logsOf {} [argument 12, argument 18], .ok (.ofNat 6)⟩ ∧
      (Expr.call "abs" [.sequence [.number (-.ofNat 3)]]).eval {} =
        ⟨logsOf {} [.sequence [.number (-.ofNat 3)]], .ok (.ofNat 3)⟩ ∧
      (Expr.call "log_B" [argument 8, argument 2]).eval {} =
        ⟨logsOf {} [argument 8, argument 2], .ok ((Binary64.ofNat 8).ln / (Binary64.ofNat 2).ln)⟩ ∧
      (Expr.call "abs" [argument 1, argument 2]).eval {} =
        refusal "abs" [argument 1, argument 2] (.wrongArity (.builtin .abs) 2) ∧
      (EvalFault.wrongArity (.builtin .abs) 2).message = "Expected 1 argument, found 2. Usage: `abs(x)`" ∧
      (Expr.call "log_B" [argument 8]).eval {} = refusal "log_B" [argument 8] (.wrongArity .logAnyBase 1) ∧
      (EvalFault.wrongArity .logAnyBase 1).message = "Expected 2 arguments, found 1. Usage: `log_B(x, base)`" ∧
      (Expr.call "log_1e2" crowdedArguments).eval {} =
        refusal "log_1e2" crowdedArguments (.wrongArity (.logBase ['1', 'e', '2'] (.ofNat 100)) 3) ∧
      (EvalFault.wrongArity (.logBase ['1', 'e', '2'] (.ofNat 100)) 3).message =
        "Expected 1 argument, found 3. Usage: `log_1e2(x)`" ∧
      (Expr.call "log_1_0" [argument 2]).eval {} =
        refusal "log_1_0" [argument 2] (.call (.invalidBase ['1', '_', '0'])) ∧
      (Expr.call "log_1e2" crowdedArguments).eval ⟨[], [("log_1e2", .gcd)]⟩ =
        ⟨logsOf {} [argument 3] ++ [⟨[.var "y"], [.var "y"]⟩], .error ⟨.undeclared "y", [.node (.sequence [.var "y"]),
          .node (.call "log_1e2" crowdedArguments)]⟩⟩ := by
  have hparse : Expr.parse callsLine = .ok callsSequence := by with_unfolding_all rfl
  have hcalled : ∀ name ∈ ["log_1e2", "gcd", "abs", "log_B", "log_1_0"], name ∈ callsSequence.callees := by decide
  have hrules {name : String} (hname : name ∈ ["log_1e2", "gcd", "abs", "log_B", "log_1_0"]) :=
    Expr.eval_call_iff hparse (hcalled name hname)
  have hvalues (m n : Nat) : List.Forall₂ (HasResult {}) [argument m, argument n] [.ofNat m, .ofNat n] :=
    .cons rfl (.cons rfl .nil)
  have hmagnitude : Computes (.builtin .abs) [-.ofNat 3] (-Binary64.ofNat 3).abs := .unary rfl _
  have hdivisor := Computes.gcd (.ofNat 12) [.ofNat 18]
  rw [show (-Binary64.ofNat 3).abs = .ofNat 3 by decide +kernel] at hmagnitude
  rw [show [Binary64.ofNat 18].foldl Binary64.gcd (.ofNat 12) = .ofNat 6 by decide +kernel] at hdivisor
  have hnoBase (value : Binary64) : ¬ DenotesBase ['1', '_', '0'] value := by
    intro h
    exact h.underscore_notMem (by decide)
  -- Why four calls are refused, and with which texts.
  have habs : CallRefused FunctionTable.default "abs" 2 (.wrongArity (.builtin .abs) 2) _ :=
    .wrongCount (.entry rfl) (by rw [takes_iff]; decide) (.unary (by decide))
  have hany : CallRefused FunctionTable.default "log_B" 1 (.wrongArity .logAnyBase 1) _ :=
    .wrongCount (.logAnyBase rfl rfl) (by rw [takes_iff]; decide) .logAnyBase
  have hcrowded :
      CallRefused FunctionTable.default "log_1e2" 3 (.wrongArity (.logBase ['1', 'e', '2'] (.ofNat 100)) 3) _ :=
    .wrongCount (.logBase rfl rfl denotesBase_hundred) (by rw [takes_iff]; decide) (.logBase _ _)
  have hinvalid : CallRefused FunctionTable.default "log_1_0" 1 (.call (.invalidBase ['1', '_', '0'])) _ :=
    .invalidBase (.invalidBase rfl rfl (by decide) hnoBase)
  have hbefore : ∀ e ∈ [argument 3], ∃ x, HasResult ⟨[], [("log_1e2", .gcd)]⟩ e x :=
    List.forall_mem_singleton.2 ⟨.ofNat 3, rfl⟩
  have hfirst : ((Expr.sequence [.var "y"]).eval ⟨[], [("log_1e2", .gcd)]⟩).result =
      .error ⟨.undeclared "y", [.node (.sequence [.var "y"])]⟩ := rfl
  refine ⟨hparse, hcalled, ?_, ?_, ?_, ?_, ?_, ?_, ?_, ?_, ?_, ?_, ?_⟩
  · rw [(hrules (by decide) _ _).1]
    exact .value (.entry rfl) (hvalues 12 18) hdivisor
  · rw [(hrules (by decide) _ _).1]
    exact .value (.entry rfl) (.cons rfl .nil) hmagnitude
  · rw [(hrules (by decide) _ _).1]
    exact .value (.logAnyBase rfl rfl) (hvalues 8 2) (.logAnyBase _ _)
  · rw [(hrules (by decide) _ _).1]
    exact .refused habs
  · exact ((hrules (by decide) {} [argument 1, argument 2]).2 _ _ habs).trans (by decide +kernel)
  · rw [(hrules (by decide) _ _).1]
    exact .refused hany
  · exact ((hrules (by decide) {} [argument 8]).2 _ _ hany).trans (by decide +kernel)
  · rw [(hrules (by decide) _ _).1]
    exact .refused hcrowded
  · exact ((hrules (by decide) {} crowdedArguments).2 _ _ hcrowded).trans (by decide +kernel)
  · rw [(hrules (by decide) _ _).1]
    exact .refused hinvalid
  · rw [(hrules (by decide) _ _).1]
    exact .argument (.entry rfl) (.gcd 2) List.singleton_append.symm hbefore hfirst

end Calculator
