/-
Which sequences of numbers and operators have a value.

Bringing a sequence into postfix order pairs its parentheses and keeps everything else, and the stack machine runs
through exactly if the order is the post-order of a tree. Neither looks at where an operator stands, so an operator that
stands behind its two operands is applied to them as well. What is refused for certain is every sequence that is not
well-formed and has no operands side by side.

- `exists_grouping_of_runStack`: what the machine runs through is the post-order of a tree;
- `isInfix_iff_apart_of_postorder`: if that is the order, the sequence is well-formed unless operands stand side by side;
- `hasValue_iff`: the sequences that have a value, their values, and the well-formed ones among them.
-/
import Calculator.Proofs.Infix.Balance

namespace Calculator

/-! ## Trees -/

namespace Grouping

/-- A tree has one operand more than it has operators. -/
theorem countP_postorder (g : Grouping) :
    g.postorder.countP Expr.isOperand = g.postorder.countP (!·.isOperand) + 1 := by
  induction g with
  | operand e h => simp [postorder, h]
  | binary op left right ihl ihr =>
    simp only [postorder, List.countP_append, ihl, ihr, List.countP_singleton, Expr.isOperand]
    simp
    omega

/-- A tree has a value if all its operands have one, and no operator of it is a parenthesis. -/
theorem exists_outcome {meaning : Expr → Except EvalFault Binary64} (g : Grouping)
    (hoperand : ∀ e ∈ g.postorder, e.isOperand → ∃ x, meaning e = .ok x)
    (hop : ∀ op, .operator op ∈ g.postorder → op.isParen = false) : ∃ x, g.outcome meaning = .ok x := by
  suffices h : ∃ r x, g.reduce meaning = .ok r ∧ r.value meaning = .ok x by
    obtain ⟨r, x, hreduce, hx⟩ := h
    exact ⟨x, by rw [outcome, hreduce]; exact hx⟩
  induction g with
  | operand e h =>
    obtain ⟨x, hx⟩ := hoperand e (by simp [postorder]) h
    exact ⟨.operand e, x, rfl, hx⟩
  | binary op left right ihl ihr =>
    obtain ⟨a, x, ha, hx⟩ := ihl (fun e he => hoperand e (by simp [postorder, he])) fun o ho => hop o (by
      simp [postorder, ho])
    obtain ⟨b, y, hb, hy⟩ := ihr (fun e he => hoperand e (by simp [postorder, he])) fun o ho => hop o (by
      simp [postorder, ho])
    obtain ⟨f, hf⟩ := Operator.exists_function (hop op (by simp [postorder]))
    have happly : op.apply x y = .ok (f x y) := by rw [Operator.apply, hf]
    exact ⟨.number (f x y), f x y, reduce_binary ha hb hx hy happly, rfl⟩

end Grouping

/-- At the end, the machine has one operand or stops. -/
theorem runStack_end (stack : List Operand) :
    (∃ a, stack = [a]) ∨ (runStack stack []).outcome = .error .invalidExpression := by
  rcases stack with _ | ⟨a, _ | ⟨b, stack⟩⟩
  · exact .inr rfl
  · exact .inl ⟨a, rfl⟩
  · exact .inr rfl

/-- At an operator, the machine has two operands or stops. -/
theorem runStack_step (stack : List Operand) (op : Operator) (items : List (Item Operand)) :
    (∃ b a others, stack = b :: a :: others) ∨
      (runStack stack (.operator op :: items)).outcome = .error (.missingOperand op) := by
  rcases stack with _ | ⟨b, _ | ⟨a, stack⟩⟩
  · exact .inr rfl
  · exact .inr rfl
  · exact .inl ⟨b, a, stack, rfl⟩

/-- **What the machine runs through is the post-order of a tree.** Every operand on the stack is the root of a tree that
was read before. -/
theorem exists_grouping_of_runStack {f : Expr → Logged Binary64} {order : List Expr} {stack : List Operand}
    (trees : List Grouping) (hlength : trees.length = stack.length) {x : Binary64}
    (h : (runStack stack (itemsOf (fun e => ⟨e, f e⟩) order)).outcome = .ok x) :
    ∃ g : Grouping, trees.reverse.flatMap Grouping.postorder ++ order = g.postorder := by
  induction order generalizing stack trees with
  | nil =>
    rcases runStack_end stack with ⟨a, rfl⟩ | hend
    · obtain ⟨g, rfl⟩ := List.length_eq_one_iff.1 hlength
      exact ⟨g, by simp⟩
    · rw [show itemsOf (fun e => (⟨e, f e⟩ : Operand)) [] = [] from rfl, hend] at h
      cases h
  | cons e order ih =>
    by_cases he : e.isOperand
    · rw [itemsOf_cons_operand _ he, runStack] at h
      obtain ⟨g, hg⟩ := ih (.operand e he :: trees) (by simp [hlength]) h
      exact ⟨g, by simpa [Grouping.postorder] using hg⟩
    · obtain ⟨op, rfl⟩ := Expr.eq_operator_of_not_isOperand he
      rw [itemsOf_cons_operator] at h
      rcases runStack_step stack op (itemsOf (fun e => ⟨e, f e⟩) order) with ⟨b, a, stack, rfl⟩ | hstop
      · obtain ⟨right, trees, rfl⟩ := List.exists_cons_of_length_eq_add_one hlength
        obtain ⟨left, trees, rfl⟩ := List.exists_cons_of_length_eq_add_one (Nat.succ.inj hlength)
        simp only [runStack_operator, bind_eq_ok_iff] at h
        obtain ⟨-, -, -, -, z, -, h⟩ := h
        obtain ⟨g, hg⟩ := ih (.binary op left right :: trees) (by simpa using hlength) h
        exact ⟨g, by simpa [Grouping.postorder] using hg⟩
      · rw [hstop] at h
        cases h

/-- What stops the machine is an operator without two operands, or not one operand at the end, if nothing else can. -/
theorem fault_of_runStack {f : Expr → Logged Binary64} {order : List Expr}
    (hoperand : ∀ e ∈ order, e.isOperand → ∃ x, (f e).outcome = .ok x)
    (hop : ∀ op, .operator op ∈ order → op.isParen = false) {stack : List Operand}
    (hstack : ∀ a ∈ stack, ∃ x, a.value.outcome = .ok x) {fault : EvalFault}
    (h : (runStack stack (itemsOf (fun e => ⟨e, f e⟩) order)).outcome = .error fault) :
    (∃ op, fault = .missingOperand op) ∨ fault = .invalidExpression := by
  have hstop := runStack_order_outcome hoperand hop hstack
  cases hheight : stackFault? stack.length (itemsOf id order) with
  | none =>
    rw [hheight] at hstop
    obtain ⟨x, hx⟩ := hstop
    exact absurd (hx.symm.trans h) (by simp)
  | some fault' =>
    rw [hheight] at hstop
    obtain rfl := Except.error.inj (hstop.symm.trans h)
    exact stackFault?_cases hheight

/-! ## Values -/

section

variable {es : List Expr}

/-- A sequence whose order is the post-order of a tree is well-formed exactly if no operands stand side by side. -/
theorem isInfix_iff_apart_of_postorder {g : Grouping} (h : postfixElements es = .ok g.postorder) :
    IsInfix es ↔ Apart false es := by
  rw [isInfix_iff_alternates]
  have hoperands := countP_postfixElements (p := Expr.isOperand) rfl rfl h
  have hconnectives := countP_postfixElements (p := Expr.isConnective) rfl rfl h
  have hpaired : Paired 0 es := by
    obtain ⟨out, hout, -⟩ := map_eq_ok_iff.1 h
    exact paired_of_arrange id es hout
  have hsame : g.postorder.countP (!·.isOperand) = g.postorder.countP Expr.isConnective := by
    refine List.countP_congr fun e he => ?_
    rcases mem_postfixElements h he with ⟨-, hoperand⟩ | ⟨op, hop, rfl⟩
    · simp [hoperand, Expr.isConnective_of_isOperand hoperand]
    · simp [Expr.isOperand, Expr.isConnective, hop]
  constructor
  · exact fun halt => halt.1.apart
  · intro hapart
    refine ⟨hapart.alternates ?_, hpaired⟩
    rw [← hoperands, ← hconnectives, ← hsame, g.countP_postorder]
    rfl

/-- A sequence that has a value has the post-order of a tree. -/
theorem exists_postorder_of_outcome {env : Environment} {x : Binary64} (h : (Expr.sequence es).outcome env = .ok x) :
    ∃ g : Grouping, postfixElements es = .ok g.postorder := by
  rw [Expr.outcome_sequence, outcome_evalSequence_eq, bind_eq_ok_iff] at h
  obtain ⟨order, horder, hrun⟩ := h
  obtain ⟨g, hg⟩ := exists_grouping_of_runStack [] rfl hrun
  exact ⟨g, (mapError_eq_ok_iff.1 horder).trans (congrArg _ hg)⟩

/-- A sequence that has the post-order of a tree has the value of that tree. -/
theorem outcome_of_postorder {g : Grouping} (h : postfixElements es = .ok g.postorder) (env : Environment) :
    (Expr.sequence es).outcome env = g.outcome (Expr.outcome env) := by
  rw [Expr.outcome_sequence]
  exact outcome_evalSequence h

end

/-! ## Sequences of numbers and operators -/

/-- a sequence of numbers and operators -/
def numeric (items : List (Item Binary64)) : List Expr := items.map (Item.expr .number)

theorem eq_number_of_mem_numeric {items : List (Item Binary64)} {e : Expr} (he : e ∈ numeric items)
    (hoperand : e.isOperand) : ∃ z, e = .number z := by
  obtain ⟨item, -, rfl⟩ := List.mem_map.1 he
  cases item with
  | operand z => exact ⟨z, rfl⟩
  | operator op => cases hoperand

/-- Every operand of the order of numbers and operators is a number. -/
theorem exists_outcome_of_mem_order {items : List (Item Binary64)} {order : List Expr}
    (h : postfixElements (numeric items) = .ok order) (env : Environment) {e : Expr} (he : e ∈ order)
    (hoperand : e.isOperand) : ∃ x, e.outcome env = .ok x := by
  rcases mem_postfixElements h he with ⟨hmem, -⟩ | ⟨op, -, rfl⟩
  · obtain ⟨z, rfl⟩ := eq_number_of_mem_numeric hmem hoperand
    exact ⟨z, rfl⟩
  · cases hoperand

/-- **The sequences that have a value.** In every environment a sequence of numbers and operators has a value exactly if
its postfix order is the post-order of a tree, and then it has the value of that tree. It is well-formed exactly if it
has a value and no operand stands right behind another. If it has no value, a parenthesis has no partner, an operator
lacks an operand, or not one operand is left at the end. -/
theorem hasValue_iff (items : List (Item Binary64)) (env : Environment) :
    ((∃ x, (Expr.sequence (numeric items)).outcome env = .ok x) ↔
        ∃ g : Grouping, postfixElements (numeric items) = .ok g.postorder) ∧
      (∀ g : Grouping, postfixElements (numeric items) = .ok g.postorder →
        (Expr.sequence (numeric items)).outcome env = g.outcome (Expr.outcome env)) ∧
      (IsInfix (numeric items) ↔
        (∃ x, (Expr.sequence (numeric items)).outcome env = .ok x) ∧ Apart false (numeric items)) ∧
      ∀ fault, (Expr.sequence (numeric items)).outcome env = .error fault →
        (∃ side, fault = .unmatched side) ∨ (∃ op, fault = .missingOperand op) ∨ fault = .invalidExpression := by
  have hvalue : (∃ x, (Expr.sequence (numeric items)).outcome env = .ok x) ↔
      ∃ g : Grouping, postfixElements (numeric items) = .ok g.postorder := by
    constructor
    · intro h
      obtain ⟨x, hx⟩ := h
      exact exists_postorder_of_outcome hx
    · intro h
      obtain ⟨g, hg⟩ := h
      rw [outcome_of_postorder hg]
      exact g.exists_outcome (fun e => exists_outcome_of_mem_order hg env) fun op => not_isParen_of_mem_order hg
  refine ⟨hvalue, fun g hg => outcome_of_postorder hg env, ?_, ?_⟩
  · rw [hvalue]
    constructor
    · intro h
      obtain ⟨g, hg⟩ := h.exists_groups
      exact ⟨⟨g, hg.postfixElements⟩, (isInfix_iff_apart_of_postorder hg.postfixElements).1 h⟩
    · intro h
      obtain ⟨⟨g, hg⟩, hapart⟩ := h
      exact (isInfix_iff_apart_of_postorder hg).2 hapart
  · intro fault h
    rw [Expr.outcome_sequence, outcome_evalSequence_eq, bind_eq_error_iff] at h
    rcases h with horder | ⟨order, horder, hrun⟩
    · obtain ⟨side, -, rfl⟩ := mapError_eq_error_iff.1 horder
      exact .inl ⟨side, rfl⟩
    · rw [mapError_eq_ok_iff] at horder
      exact .inr (fault_of_runStack (fun e => exists_outcome_of_mem_order horder env)
        (fun op => not_isParen_of_mem_order horder) (by simp) hrun)

/-- two numbers, and an operator behind them -/
def postfixSum : List (Item Binary64) :=
  [.operand (.ofNat 1), .operand (.ofNat 2), .operator .add]

/-- An operator behind its two operands is applied to them, in a sequence that is not well-formed. -/
theorem postfixSum_hasValue :
    (Expr.sequence (numeric postfixSum)).outcome {} = .ok (.ofNat 3) ∧ ¬ IsInfix (numeric postfixSum) := by
  constructor
  · decide +kernel
  · rw [isInfix_iff_alternates]
    intro h
    exact absurd h.1.2.1 (by decide)

end Calculator
