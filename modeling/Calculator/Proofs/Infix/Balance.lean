/-
What the height of the stack decides.

An operand makes the stack of the machine one higher and an operator makes it one lower, whatever the entries are: an
operand that is not evaluated yet counts as much as the result of an operator. So if no operand is at fault, the height
alone tells where the machine stops, and the height is the balance of the order that was read, its operands less its
operators.

- `runStack_outcome`: the machine stops as the height of its stack says (`stackFault?`), if no operand stops it before;
- `stackFault?_eq_missingOperand_iff`, `stackFault?_of_not_firstShort`: what it says, by balances;
- `outcome_by_balance`: which balanced sequences have a value, and what is wrong with the others.
-/
import Calculator.Proofs.Infix.Parentheses
import Calculator.Proofs.Infix.Reduction

namespace Calculator

/-! ## Balance -/

/-- the operands less the operators -/
def balance (order : List Expr) : Int := order.countP Expr.isOperand - order.countP (!·.isOperand)

/-- On a stack of some height, `op` is the first operator of an order that comes when there are fewer than two operands.
-/
def FirstShort (height : Int) (order : List Expr) (op : Operator) : Prop :=
  ∃ k, order[k]? = some (.operator op) ∧ height + balance (order.take k) < 2 ∧
    ∀ j < k, ∀ other, order[j]? = some (.operator other) → 2 ≤ height + balance (order.take j)

theorem balance_cons (e : Expr) (order : List Expr) : balance (e :: order) = balance [e] + balance order := by
  simp only [balance, List.countP_cons, List.countP_nil]
  omega

theorem balance_operand {e : Expr} (h : e.isOperand) : balance [e] = 1 := by simp [balance, h]

theorem balance_operator (op : Operator) : balance [.operator op] = -1 := rfl

/-- The first operator that comes too early is the first element, or the first one behind it. -/
theorem firstShort_cons {height : Int} {e : Expr} {order : List Expr} {op : Operator} :
    FirstShort height (e :: order) op ↔
      height < 2 ∧ e = .operator op ∨
        (∀ other, e = .operator other → 2 ≤ height) ∧ FirstShort (height + balance [e]) order op := by
  have htake : ∀ k, height + balance ((e :: order).take (k + 1)) = height + balance [e] + balance (order.take k) := by
    intro k
    rw [List.take_succ_cons, balance_cons, Int.add_assoc]
  have hnone : height + balance ((e :: order).take 0) = height := Int.add_zero height
  constructor
  · intro h
    obtain ⟨k, hat, hlow, hbefore⟩ := h
    cases k with
    | zero => exact .inl ⟨hnone ▸ hlow, Option.some.inj hat⟩
    | succ k =>
      refine .inr ⟨fun other he => ?_, k, hat, htake k ▸ hlow, fun j hj other hother => ?_⟩
      · exact hnone ▸ hbefore 0 (Nat.succ_pos k) other (congrArg some he)
      · exact htake j ▸ hbefore (j + 1) (Nat.succ_lt_succ hj) other hother
  · intro h
    rcases h with ⟨hlow, rfl⟩ | ⟨hfirst, k, hat, hlow, hbefore⟩
    · exact ⟨0, rfl, hnone.symm ▸ hlow, fun j hj => absurd hj (Nat.not_lt_zero j)⟩
    · refine ⟨k + 1, hat, (htake k).symm ▸ hlow, fun j hj other hother => ?_⟩
      cases j with
      | zero => exact hnone.symm ▸ hfirst other (Option.some.inj hother)
      | succ j => exact (htake j).symm ▸ hbefore j (Nat.lt_of_succ_lt_succ hj) other hother

theorem firstShort_operand {height : Int} {e : Expr} (he : e.isOperand) {order : List Expr} {op : Operator} :
    FirstShort height (e :: order) op ↔ FirstShort (height + 1) order op := by
  have hne : ∀ other, e ≠ .operator other := by rintro other rfl; cases he
  rw [firstShort_cons, balance_operand he]
  simp [hne]

theorem firstShort_operator {height : Int} {other : Operator} {order : List Expr} {op : Operator} :
    FirstShort height (.operator other :: order) op ↔
      height < 2 ∧ other = op ∨ 2 ≤ height ∧ FirstShort (height - 1) order op := by
  rw [firstShort_cons, balance_operator, Int.sub_eq_add_neg]
  simp

/-! ## The stack machine -/

/-- what stops the machine on a stack of some height, if no operand does -/
def stackFault? {α : Type} (height : Nat) : List (Item α) → Option EvalFault
  | [] => if height = 1 then none else some .invalidExpression
  | .operand _ :: items => stackFault? (height + 1) items
  | .operator op :: items => if height < 2 then some (.missingOperand op) else stackFault? (height - 1) items

/-- What the operands are does not count. -/
theorem stackFault?_map {α β : Type} (f : α → β) (height : Nat) (items : List (Item α)) :
    stackFault? height (items.map (Item.map f)) = stackFault? height items := by
  induction items generalizing height with
  | nil => rfl
  | cons item items ih =>
    cases item with
    | operand a => exact ih (height + 1)
    | operator op => rw [List.map_cons, Item.map, stackFault?, stackFault?, ih]

/-- **The height of the stack decides** what becomes of operands that all have a value. -/
theorem runStack_outcome {items : List (Item Operand)} (stack : List Operand)
    (hoperand : ∀ a, .operand a ∈ items → ∃ x, a.value.outcome = .ok x)
    (hop : ∀ op, .operator op ∈ items → op.isParen = false) (hstack : ∀ a ∈ stack, ∃ x, a.value.outcome = .ok x) :
    match stackFault? stack.length items with
    | some fault => (runStack stack items).outcome = .error fault
    | none => ∃ x, (runStack stack items).outcome = .ok x := by
  induction items generalizing stack with
  | nil =>
    rcases stack with _ | ⟨a, _ | ⟨b, stack⟩⟩
    · rfl
    · exact hstack a List.mem_cons_self
    · rfl
  | cons item items ih =>
    have hrest := fun stack => ih stack (fun a ha => hoperand a (.tail _ ha)) fun op ho => hop op (.tail _ ho)
    cases item with
    | operand a =>
      rw [runStack, stackFault?]
      exact hrest _ (List.forall_mem_cons.2 ⟨hoperand a List.mem_cons_self, hstack⟩)
    | operator op =>
      rcases stack with _ | ⟨b, _ | ⟨a, stack⟩⟩
      · rfl
      · rfl
      · obtain ⟨⟨y, hy⟩, ⟨x, hx⟩, hothers⟩ := by simpa only [List.forall_mem_cons] using hstack
        obtain ⟨f, hf⟩ := Operator.exists_function (hop op List.mem_cons_self)
        have hresult := hrest (⟨.number (f x y), pure (f x y)⟩ :: stack)
          (List.forall_mem_cons.2 ⟨⟨_, rfl⟩, hothers⟩)
        simp only [runStack_operator, hx, hy, Operator.apply, hf]
        exact hresult

/-- Nothing else stops the machine than an operator without two operands, or not one operand at the end. -/
theorem stackFault?_cases {α : Type} {height : Nat} {items : List (Item α)} {fault : EvalFault}
    (h : stackFault? height items = some fault) : (∃ op, fault = .missingOperand op) ∨ fault = .invalidExpression := by
  induction items generalizing height with
  | nil =>
    rw [stackFault?, Option.ite_none_left_eq_some] at h
    exact .inr (Option.some.inj h.2).symm
  | cons item items ih =>
    cases item with
    | operand a => exact ih h
    | operator op =>
      rw [stackFault?] at h
      split at h
      · exact .inl ⟨op, (Option.some.inj h).symm⟩
      · exact ih h

/-- The height of the stack decides what becomes of an order of which all operands have a value. -/
theorem runStack_order_outcome {meaning : Expr → Logged Binary64} {order : List Expr}
    (hoperand : ∀ e ∈ order, e.isOperand → ∃ x, (meaning e).outcome = .ok x)
    (hop : ∀ op, .operator op ∈ order → op.isParen = false) {stack : List Operand}
    (hstack : ∀ a ∈ stack, ∃ x, a.value.outcome = .ok x) :
    match stackFault? stack.length (itemsOf id order) with
    | some fault => (runStack stack (itemsOf (fun e => ⟨e, meaning e⟩) order)).outcome = .error fault
    | none => ∃ x, (runStack stack (itemsOf (fun e => ⟨e, meaning e⟩) order)).outcome = .ok x := by
  have hvalue : ∀ a, .operand a ∈ itemsOf (fun e => (⟨e, meaning e⟩ : Operand)) order →
      ∃ x, a.value.outcome = .ok x := by
    intro a ha
    obtain ⟨e, he, heoperand, rfl⟩ := exists_of_operand_mem_itemsOf _ ha
    exact hoperand e he heoperand
  have hrun := runStack_outcome stack hvalue (fun op ho => hop op (mem_of_operator_mem_itemsOf _ ho)) hstack
  rwa [itemsOf_eq_map, stackFault?_map, ← itemsOf_eq_map] at hrun

section

variable {α : Type} (f : Expr → α) {order : List Expr} {height : Nat}

theorem stackFault?_eq_missingOperand_iff {op : Operator} :
    stackFault? height (itemsOf f order) = some (.missingOperand op) ↔ FirstShort height order op := by
  induction order generalizing height with
  | nil =>
    have hnone : ¬ FirstShort height [] op := by simp [FirstShort]
    simp only [itemsOf, List.map_nil, stackFault?, hnone, iff_false]
    split <;> simp
  | cons e order ih =>
    by_cases he : e.isOperand
    · rw [itemsOf_cons_operand f he, stackFault?, ih, firstShort_operand he]
      rfl
    · obtain ⟨other, rfl⟩ := Expr.eq_operator_of_not_isOperand he
      rw [itemsOf_cons_operator, stackFault?, firstShort_operator]
      by_cases hlow : height < 2
      · have hlow' : (height : Int) < 2 := by omega
        simp [hlow, hlow', Int.not_le.2 hlow']
      · have hhigh : 2 ≤ (height : Int) := by omega
        have hnext : ((height - 1 : Nat) : Int) = height - 1 := by omega
        rw [if_neg hlow, ih, hnext]
        simp [hhigh, Int.not_lt.2 hhigh]

/-- Where no operator comes too early, the balance of the whole order is left to decide. -/
theorem stackFault?_of_not_firstShort (h : ∀ op, ¬ FirstShort height order op) :
    stackFault? height (itemsOf f order) = if height + balance order = 1 then none else some .invalidExpression := by
  induction order generalizing height with
  | nil =>
    have hheight : (height : Int) + balance [] = 1 ↔ height = 1 := by simp only [balance, List.countP_nil]; omega
    simp only [itemsOf, List.map_nil, stackFault?, hheight]
  | cons e order ih =>
    by_cases he : e.isOperand
    · have hbalance : (height : Int) + balance (e :: order) = (height + 1 : Nat) + balance order := by
        rw [balance_cons, balance_operand he]
        omega
      rw [itemsOf_cons_operand f he, stackFault?, hbalance]
      exact ih fun op hop => h op ((firstShort_operand he).2 hop)
    · obtain ⟨op, rfl⟩ := Expr.eq_operator_of_not_isOperand he
      have hhigh : ¬ height < 2 := by
        intro hlow
        exact h op (firstShort_operator.2 (.inl ⟨by omega, rfl⟩))
      have hnext : ((height - 1 : Nat) : Int) = height - 1 := by omega
      have hbalance : (height : Int) + balance (.operator op :: order) = (height - 1 : Nat) + balance order := by
        rw [balance_cons, balance_operator]
        omega
      rw [itemsOf_cons_operator, stackFault?, if_neg hhigh, hbalance]
      exact ih fun other hother => h other (firstShort_operator.2 (.inr ⟨by omega, hnext ▸ hother⟩))

end

/-! ## Balanced sequences -/

/-- On an empty stack, the balance of the whole order is the height that is left. -/
theorem stackFault?_zero {α : Type} (f : Expr → α) {order : List Expr} (h : ∀ op, ¬ FirstShort 0 order op) :
    stackFault? 0 (itemsOf f order) = if balance order = 1 then none else some .invalidExpression := by
  have hheight := @stackFault?_of_not_firstShort α f order 0 h
  rwa [Int.natCast_zero, Int.zero_add] at hheight

section

variable {env : Environment} {es : List Expr} (hoperand : ∀ e ∈ es, e.isOperand → ∃ x, e.outcome env = .ok x)

include hoperand

/-- A sequence with an order, of which all operands have a value, comes to what the height of the stack says. -/
theorem outcome_of_order {order : List Expr} (horder : postfixElements es = .ok order) :
    match stackFault? 0 (itemsOf id order) with
    | some fault => (Expr.sequence es).outcome env = .error fault
    | none => ∃ x, (Expr.sequence es).outcome env = .ok x := by
  have hvalue : ∀ e ∈ order, e.isOperand → ∃ x, (e.eval env).outcome = .ok x := by
    intro e he heoperand
    rcases mem_postfixElements horder he with ⟨hmem, -⟩ | ⟨op, -, rfl⟩
    · exact hoperand e hmem heoperand
    · cases heoperand
  have hrun := @runStack_order_outcome (Expr.eval env) order hvalue (fun op => not_isParen_of_mem_order horder) [] (by
    simp)
  rw [Expr.outcome_sequence, outcome_evalSequence_eq, horder]
  exact hrun

/-- **Balances decide.** A sequence of which the parentheses balance and all operands have a value fails for want of an
operand of `op` exactly if `op` is the first operator of its order that stands behind a beginning with a balance below
two. If there is no such operator, it fails as an invalid expression exactly if the balance of the order is not one;
otherwise it has a value. -/
theorem outcome_by_balance (hbalanced : Balanced es) :
    ∃ order, postfixElements es = .ok order ∧
      (∀ op, (Expr.sequence es).outcome env = .error (.missingOperand op) ↔ FirstShort 0 order op) ∧
      ((∀ op, ¬ FirstShort 0 order op) →
        ((Expr.sequence es).outcome env = .error .invalidExpression ↔ balance order ≠ 1) ∧
          (balance order = 1 → ∃ x, (Expr.sequence es).outcome env = .ok x)) := by
  obtain ⟨order, horder⟩ := (exists_postfixElements_iff es).2 hbalanced
  have hstop := outcome_of_order hoperand horder
  have hfault : ∀ fault, (Expr.sequence es).outcome env = .error fault ↔
      stackFault? 0 (itemsOf id order) = some fault := by
    intro fault
    cases hheight : stackFault? 0 (itemsOf id order) with
    | none =>
      rw [hheight] at hstop
      obtain ⟨x, hx⟩ := hstop
      simp [hx]
    | some fault' =>
      rw [hheight] at hstop
      simp [hstop]
  refine ⟨order, horder, fun op => (hfault _).trans (stackFault?_eq_missingOperand_iff id), fun hshort => ?_⟩
  refine ⟨?_, fun hone => ?_⟩
  · rw [hfault, stackFault?_zero id hshort]
    by_cases hone : balance order = 1
    · simp [hone]
    · simp [hone]
  · rw [stackFault?_zero id hshort, if_pos hone] at hstop
    exact hstop

end

/-- `(1 +) * 2`, and its elements in postfix order -/
def brokenProduct : List Expr :=
  [.operator .leftParen, .number (.ofNat 1), .operator .add, .operator .rightParen, .operator .multiply,
    .number (.ofNat 2)]

def brokenOrder : List Expr := [.number (.ofNat 1), .operator .add, .number (.ofNat 2), .operator .multiply]

/-- The sum is put out in front of its second operand, at a balance of one. -/
theorem outcome_by_balance_brokenProduct :
    Balanced brokenProduct ∧ (∀ e ∈ brokenProduct, e.isOperand → ∃ x, e.outcome {} = .ok x) ∧
      postfixElements brokenProduct = .ok brokenOrder ∧ FirstShort 0 brokenOrder .add ∧
      (Expr.sequence brokenProduct).outcome {} = .error (.missingOperand .add) := by
  have horder : postfixElements brokenProduct = .ok brokenOrder := rfl
  have hbalanced : Balanced brokenProduct := (exists_postfixElements_iff _).1 ⟨_, horder⟩
  have hoperand : ∀ e ∈ brokenProduct, e.isOperand → ∃ x, e.outcome {} = .ok x := by
    intro e he hoperand
    simp only [brokenProduct, List.mem_cons, List.not_mem_nil, or_false] at he
    rcases he with rfl | rfl | rfl | rfl | rfl | rfl <;> first | exact ⟨_, rfl⟩ | cases hoperand
  have hshort : FirstShort 0 brokenOrder .add := ⟨1, rfl, by decide, by
    intro j hj other hother
    obtain rfl := Nat.lt_one_iff.1 hj
    cases hother⟩
  obtain ⟨order, horder', hmissing, -⟩ := outcome_by_balance hoperand hbalanced
  obtain rfl := Except.ok.inj (horder'.symm.trans horder)
  exact ⟨hbalanced, hoperand, horder, hshort, (hmissing .add).2 hshort⟩

end Calculator
