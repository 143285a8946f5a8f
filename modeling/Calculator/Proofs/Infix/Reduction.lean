/-
The value of a well-formed sequence is that of its tree of operators.

`Grouping.reduce` evaluates a tree without a stack: its operators are reduced in post-order, and an operand is evaluated
only when the operator above it is reduced, the left one before the right one. What an operator is reduced to is a number
and never evaluated again. Contexts of errors are left aside: `Logged.outcome` is a result with the bare fault.

- `outcome_evalSequence_eq`: evaluating a sequence is the stack machine on its order, with operands as they were read;
- `runStack_itemsOf`: the stack machine on the post-order of a tree does what reducing the tree does;
- `outcome_evalSequence`: so does evaluating a sequence with that order, whatever its operands mean;
- `IsInfix.eval_eq_reduction`: for every environment, a well-formed sequence has the value, or the fault, of its tree.
-/
import Calculator.Proofs.Infix.Contents

namespace Calculator

/-! ## Outcomes -/

/-- a result or its fault, without the log and the context -/
def Logged.outcome {α : Type} (x : Logged α) : Except EvalFault α := x.result.mapError (·.fault)

namespace Logged

@[simp] theorem outcome_pure {α : Type} (a : α) : (Pure.pure a : Logged α).outcome = .ok a := rfl

@[simp] theorem outcome_fail {α : Type} (fault : EvalFault) : (fail fault : Logged α).outcome = .error fault := rfl

@[simp] theorem outcome_record (step : OrderStep) : (record step).outcome = .ok () := rfl

@[simp] theorem outcome_ofExcept {ε α : Type} (f : ε → EvalFault) (x : Except ε α) :
    (ofExcept f x).outcome = x.mapError f := by
  cases x <;> rfl

@[simp] theorem outcome_inside {α : Type} (frame : EvalFrame) (x : Logged α) : (x.inside frame).outcome = x.outcome := by
  obtain ⟨log, _ | _⟩ := x <;> rfl

@[simp] theorem outcome_bind {α β : Type} (x : Logged α) (f : α → Logged β) :
    (x >>= f).outcome = x.outcome >>= fun a => (f a).outcome := by
  obtain ⟨log, _ | _⟩ := x <;> rfl

end Logged

namespace Expr

/-- the value of an expression, or what is wrong with it -/
def outcome (env : Environment) (e : Expr) : Except EvalFault Binary64 := (e.eval env).outcome

theorem evalEach_eq_map (env : Environment) (es : List Expr) : evalEach env es = es.map (eval env) := by
  induction es with
  | nil => rfl
  | cons e es ih => simp [evalEach, ih]

theorem outcome_sequence (env : Environment) (es : List Expr) :
    (sequence es).outcome env = (evalSequence es (es.map (eval env))).outcome := by
  rw [outcome, eval, Logged.outcome_inside, evalEach_eq_map]

end Expr

/-! ## Reduction of a tree -/

/-- what is left of a tree when its operators are reduced: its only operand, not evaluated yet, or a number -/
inductive Reduct where
  | operand (e : Expr)
  | number (z : Binary64)

/-- the value of what is left, where `meaning` evaluates operands -/
def Reduct.value (meaning : Expr → Except EvalFault Binary64) : Reduct → Except EvalFault Binary64
  | operand e => meaning e
  | number z => .ok z

namespace Grouping

/-- What is left of a tree when its operators are reduced, where `meaning` evaluates operands. An operator is reduced
behind those below it; if one of its two sides is an operand, it is evaluated only then. -/
def reduce (meaning : Expr → Except EvalFault Binary64) : Grouping → Except EvalFault Reduct
  | operand e _ => .ok (.operand e)
  | binary op left right => do
    let a ← left.reduce meaning
    let b ← right.reduce meaning
    let x ← a.value meaning
    let y ← b.value meaning
    let z ← op.apply x y
    return .number z

/-- the value of a tree, or the fault that is met first -/
def outcome (meaning : Expr → Except EvalFault Binary64) (g : Grouping) : Except EvalFault Binary64 :=
  g.reduce meaning >>= Reduct.value meaning

/-- An operator of which both sides have values is reduced to the number that it makes of them. -/
theorem reduce_binary {meaning : Expr → Except EvalFault Binary64} {op : Operator} {left right : Grouping}
    {a b : Reduct} {x y z : Binary64} (ha : left.reduce meaning = .ok a) (hb : right.reduce meaning = .ok b)
    (hx : a.value meaning = .ok x) (hy : b.value meaning = .ok y) (hz : op.apply x y = .ok z) :
    (binary op left right).reduce meaning = .ok (.number z) := by
  rw [reduce, ha, hb]
  simp only [bind, Except.bind, hx, hy, hz]
  rfl

end Grouping

/-! ## The stack machine -/

theorem Operator.exists_function {op : Operator} (h : op.isParen = false) : ∃ f, op.function? = some f := by
  rw [← Option.isSome_iff_exists, Option.isSome_iff_ne_none, Ne, function?_eq_none_iff, h]
  decide

theorem zipWith_item (f : Expr → Logged Binary64) (es : List Expr) :
    es.zipWith (fun e value => e.item (⟨e, value⟩ : Operand)) (es.map f) = itemsOf (fun e => ⟨e, f e⟩) es := by
  rw [List.zipWith_map_right, List.zipWith_self]
  rfl

/-- Evaluating a sequence is running its order on the machine. -/
theorem outcome_evalSequence_eq (f : Expr → Logged Binary64) (es : List Expr) :
    (evalSequence es (es.map f)).outcome = (postfixElements es).mapError .unmatched >>= fun order =>
      (runStack [] (itemsOf (fun e => ⟨e, f e⟩) order)).outcome := by
  rw [evalSequence, zipWith_item, postfixOrder_itemsOf]
  simp only [Logged.outcome_bind, Logged.outcome_ofExcept, Logged.outcome_record]
  cases postfixElements es <;> rfl

/-- what is left of a tree, as it stands on the stack -/
def Reduct.onStack (f : Expr → Logged Binary64) : Reduct → Operand
  | operand e => ⟨e, f e⟩
  | number z => ⟨.number z, pure z⟩

section

variable {f : Expr → Logged Binary64}

theorem Reduct.outcome_onStack (r : Reduct) : (r.onStack f).value.outcome = r.value fun e => (f e).outcome := by
  cases r <;> rfl

/-- an operator on the two operands on top of the stack -/
theorem runStack_operator (a b : Operand) (op : Operator) (stack : List Operand) (rest : List (Item Operand)) :
    (runStack (b :: a :: stack) (.operator op :: rest)).outcome = (do
      let x ← a.value.outcome
      let y ← b.value.outcome
      let z ← op.apply x y
      (runStack (⟨.number z, pure z⟩ :: stack) rest).outcome) := by
  have hid : ∀ x : Except EvalFault Binary64, x.mapError id = x := by rintro (_ | _) <;> rfl
  simp only [runStack, Logged.outcome_bind, Logged.outcome_inside, Logged.outcome_ofExcept, hid]

/-- **The machine reduces the tree.** The items of a tree put what is left of it on the stack, on top of what was there,
or stop at the fault that reducing the tree stops at. -/
theorem runStack_itemsOf (g : Grouping) (stack : List Operand) (rest : List (Item Operand)) :
    (runStack stack (itemsOf (fun e => ⟨e, f e⟩) g.postorder ++ rest)).outcome =
      g.reduce (fun e => (f e).outcome) >>= fun r => (runStack (r.onStack f :: stack) rest).outcome := by
  induction g generalizing stack rest with
  | operand e h =>
    rw [Grouping.postorder, itemsOf_operand _ h, List.singleton_append, runStack]
    rfl
  | binary op left right ihl ihr =>
    have hitems : itemsOf (fun e => (⟨e, f e⟩ : Operand)) (Grouping.binary op left right).postorder ++ rest =
        itemsOf (fun e => ⟨e, f e⟩) left.postorder ++
          (itemsOf (fun e => ⟨e, f e⟩) right.postorder ++ .operator op :: rest) := by
      simp [Grouping.postorder, itemsOf, Expr.item]
    rw [hitems, ihl]
    simp only [ihr, runStack_operator, Reduct.outcome_onStack, Grouping.reduce, bind_assoc, pure_bind]
    rfl

/-- A sequence that is brought into the post-order of a tree comes to what the tree does, whatever its operands mean. -/
theorem outcome_evalSequence {es : List Expr} {g : Grouping} (h : postfixElements es = .ok g.postorder) :
    (evalSequence es (es.map f)).outcome = g.outcome fun e => (f e).outcome := by
  have hrun := runStack_itemsOf (f := f) g [] []
  rw [List.append_nil] at hrun
  rw [outcome_evalSequence_eq, h]
  refine hrun.trans (congrArg _ (funext fun r => ?_))
  exact r.outcome_onStack

end

/-! ## The value of a well-formed sequence -/

/-- **A sequence has the value of its tree.** A well-formed sequence groups as one tree. Its postfix order is the
post-order of that tree, and in every environment evaluating it gives the value of the tree or fails with the fault that
is met first when the tree is reduced. -/
theorem IsInfix.eval_eq_reduction {es : List Expr} (h : IsInfix es) :
    ∃ g, Groups 0 es g ∧ (∀ g', Groups 0 es g' → g' = g) ∧ postfixElements es = .ok g.postorder ∧
      ∀ env, (Expr.sequence es).outcome env = g.outcome (Expr.outcome env) := by
  obtain ⟨g, hg⟩ := h.exists_groups
  refine ⟨g, hg, fun g' hg' => hg'.unique hg, hg.postfixElements, fun env => ?_⟩
  rw [Expr.outcome_sequence]
  exact outcome_evalSequence hg.postfixElements

/-- two powers in a row, the second to the sum of a group -/
def powers : List Expr :=
  [.var "x", .operator .exponent, .var "y", .operator .exponent,
    .operator .leftParen, .var "z", .operator .add, .var "x", .operator .rightParen]

def powersGrouping : Grouping :=
  .binary .exponent (.binary .exponent (.operand (.var "x") rfl) (.operand (.var "y") rfl))
    (.binary .add (.operand (.var "z") rfl) (.operand (.var "x") rfl))

/-- `x` is two, `y` is three and `z` is one. -/
def smallPowers : Environment := { vars := [("x", .ofNat 2), ("y", .ofNat 3), ("z", .ofNat 1)] }

/-- two quotients in a row -/
def quotients : List Expr :=
  [.number (.ofNat 16), .operator .divide, .number (.ofNat 4), .operator .divide, .number (.ofNat 2)]

/-- The first of two powers in a row is the base of the second: here it is two to the third, and it is raised to the
third once more. Powers are the platform's, but quotients are computed: sixteen by four by two are two, not eight. -/
theorem powers_associate_left :
    IsInfix powers ∧ Groups 0 powers powersGrouping ∧ postfixElements powers = .ok powersGrouping.postorder ∧
      (∀ env, (Expr.sequence powers).outcome env = powersGrouping.outcome (Expr.outcome env)) ∧
      (Expr.sequence powers).outcome smallPowers = .ok (((Binary64.ofNat 2).pow (.ofNat 3)).pow (.ofNat 3)) ∧
      (Expr.sequence quotients).outcome {} = .ok (.ofNat 2) := by
  have hsum : IsInfix ([.var "z"] ++ .operator .add :: [.var "x"]) := .binary rfl (.operand rfl) (.operand rfl)
  have hbase : IsInfix ([.var "x"] ++ .operator .exponent :: [.var "y"]) := .binary rfl (.operand rfl) (.operand rfl)
  have he : IsInfix powers := .binary rfl hbase (.group hsum)
  have gsum : Groups 0 ([.var "z"] ++ .operator .add :: [.var "x"]) _ :=
    .binary rfl (Nat.zero_le _) (.operand rfl) (.operand rfl)
  have gbase : Groups Operator.exponent.precedence ([.var "x"] ++ .operator .exponent :: [.var "y"]) _ :=
    .binary rfl (Nat.le_refl _) (.operand rfl) (.operand rfl)
  have hgroups : Groups 0 powers powersGrouping := .binary rfl (Nat.zero_le _) gbase (.group gsum)
  have hthree : Binary64.add (.ofNat 1) (.ofNat 2) = .ofNat 3 := by decide +kernel
  obtain ⟨g, hg, hunique, hpost, heval⟩ := IsInfix.eval_eq_reduction he
  obtain rfl := hunique _ hgroups
  have hx : (Reduct.operand (.var "x")).value (Expr.outcome smallPowers) = .ok (.ofNat 2) := rfl
  have hy : (Reduct.operand (.var "y")).value (Expr.outcome smallPowers) = .ok (.ofNat 3) := rfl
  have hz : (Reduct.operand (.var "z")).value (Expr.outcome smallPowers) = .ok (.ofNat 1) := rfl
  have hpower : (Grouping.binary .exponent (.operand (.var "x") rfl) (.operand (.var "y") rfl)).reduce
      (Expr.outcome smallPowers) = .ok (.number _) := Grouping.reduce_binary rfl rfl hx hy rfl
  have htotal : (Grouping.binary .add (.operand (.var "z") rfl) (.operand (.var "x") rfl)).reduce
      (Expr.outcome smallPowers) = .ok (.number _) := Grouping.reduce_binary rfl rfl hz hx (congrArg Except.ok hthree)
  refine ⟨he, hg, hpost, heval, ?_, by decide +kernel⟩
  rw [heval, Grouping.outcome, powersGrouping, Grouping.reduce_binary hpower htotal rfl rfl rfl]
  rfl

end Calculator
