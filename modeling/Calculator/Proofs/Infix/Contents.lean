/-
What the postfix order of a sequence holds.

Bringing a sequence into order pairs its parentheses and leaves them out, and keeps everything else: the operands as
they stand, the other operators as often as they are there. What the operands are does not count.

- `countP_arrange`, `operands_arrange`, `not_isParen_of_mem_arrange`: what is put out while some operators wait;
- `arrange_map`, `postfixOrder_itemsOf`: the order does not depend on what stands for the operands;
- `paired_of_arrange`: what has an order has paired parentheses;
- `countP_postfixElements`, `mem_postfixElements`, `filter_postfixElements`: the order of a whole sequence.
-/
import Calculator.Proofs.Infix.Alternation
import Calculator.Proofs.Infix.Order

namespace Calculator

/-! ## Items -/

namespace Item

variable {α β : Type}

/-- the same item with something else for its operand -/
def map (f : α → β) : Item α → Item β
  | operand a => .operand (f a)
  | operator op => .operator op

def operand? : Item α → Option α
  | operand a => some a
  | operator _ => none

theorem mem_filterMap_operand? {a : α} {items : List (Item α)} :
    a ∈ items.filterMap operand? ↔ .operand a ∈ items := by
  rw [List.mem_filterMap]
  constructor
  · intro h
    obtain ⟨item, hitem, ha⟩ := h
    cases item <;> cases ha
    exact hitem
  · intro h
    exact ⟨_, h, rfl⟩

end Item

/-! ## Orders of items -/

section

variable {α : Type}

/-- An order holds what was there and what waited, parentheses aside. -/
theorem countP_arrange {p : Item α → Bool} (hleft : p (.operator .leftParen) = false)
    (hright : p (.operator .rightParen) = false) {waiting : List Operator} {items out : List (Item α)}
    (h : arrange waiting items = .ok out) : out.countP p = items.countP p + (waiting.map .operator).countP p := by
  refine arrange_induct ?nil ?operand ?opening ?closing ?joining h
  case nil =>
    intro waiting _
    simp
  case operand =>
    intro waiting a items out ih
    simp only [List.countP_cons]
    omega
  case opening =>
    intro waiting items out ih
    simpa [hleft] using ih
  case closing =>
    intro released outer items out _ ih
    simp [hleft, hright, ih]
    omega
  case joining =>
    intro op released others items out _ _ ih
    simp [List.countP_cons, ih]
    omega

theorem filterMap_operand?_operators (ops : List Operator) :
    (ops.map (Item.operator : Operator → Item α)).filterMap Item.operand? = [] := by
  induction ops with
  | nil => rfl
  | cons op ops ih => exact ih

/-- The operands are put out as they stand. -/
theorem operands_arrange {waiting : List Operator} {items out : List (Item α)} (h : arrange waiting items = .ok out) :
    out.filterMap Item.operand? = items.filterMap Item.operand? := by
  refine arrange_induct ?nil ?operand ?opening ?closing ?joining h
  case nil =>
    intro waiting _
    exact filterMap_operand?_operators waiting
  case operand =>
    intro waiting a items out ih
    simp [Item.operand?, ih]
  case opening =>
    intro waiting items out ih
    exact ih
  case closing =>
    intro released outer items out _ ih
    rw [List.filterMap_append, filterMap_operand?_operators, ih]
    rfl
  case joining =>
    intro op released others items out _ _ ih
    rw [List.filterMap_append, filterMap_operand?_operators, ih]
    rfl

/-- The operands that are put out were there before. -/
theorem operand_mem_of_arrange {waiting : List Operator} {items out : List (Item α)}
    (h : arrange waiting items = .ok out) {a : α} (ha : .operand a ∈ out) : .operand a ∈ items := by
  rw [← Item.mem_filterMap_operand?, ← operands_arrange h]
  exact Item.mem_filterMap_operand?.2 ha

/-- The order does not depend on what stands for the operands. -/
theorem arrange_map {β : Type} (f : α → β) (waiting : List Operator) (items : List (Item α)) :
    arrange waiting (items.map (Item.map f)) = (arrange waiting items).map (List.map (Item.map f)) := by
  have hrelease : ∀ (released : List Operator) (x : Except Unmatched (List (Item α))),
      (x.map (List.map (Item.map f))).map (released.map .operator ++ ·) =
        (x.map (released.map .operator ++ ·)).map (List.map (Item.map f)) := by
    intro released x
    cases x with
    | error side => rfl
    | ok out => simp [Except.map, Item.map]
  fun_induction arrange waiting items with
  | case1 waiting hmem => simp [arrange, hmem, Except.map]
  | case2 waiting hmem => simp [arrange, hmem, Except.map, Item.map]
  | case3 waiting a items ih =>
    rw [List.map_cons, Item.map, arrange, ih]
    cases arrange waiting items <;> rfl
  | case4 waiting items ih => rw [List.map_cons, Item.map, arrange, ih]
  | case5 waiting items hdrop =>
    rw [List.map_cons, Item.map, arrange, hdrop]
    rfl
  | case6 waiting items released paren outer hdrop ih =>
    rw [List.map_cons, Item.map, arrange, hdrop]
    simp only [ih, hrelease]
    rfl
  | case7 waiting op items hleft hright released others ih =>
    rw [List.map_cons, Item.map, arrange]
    · rw [ih, hrelease]
    · exact hleft
    · exact hright

/-- No parenthesis is put out. -/
theorem not_isParen_of_mem_arrange {waiting : List Operator} (hright : .rightParen ∉ waiting)
    {items out : List (Item α)} (h : arrange waiting items = .ok out) {op : Operator} (hop : .operator op ∈ out) :
    op.isParen = false := by
  have hcases : ∀ {ops : List Operator}, .leftParen ∉ ops → .rightParen ∉ ops → op ∈ ops → op.isParen = false := by
    intro ops hl hr hmem
    cases op with
    | leftParen => exact absurd hmem hl
    | rightParen => exact absurd hmem hr
    | _ => rfl
  revert hright hop
  refine arrange_induct ?nil ?operand ?opening ?closing ?joining h
  case nil =>
    intro waiting hleft hright hop
    exact hcases hleft hright (by simpa using hop)
  case operand =>
    intro waiting a items out ih hright hop
    exact ih hright (by simpa using hop)
  case opening =>
    intro waiting items out ih hright hop
    exact ih (by simp [hright]) hop
  case closing =>
    intro released outer items out hleft ih hright hop
    rw [List.mem_append, List.mem_cons, not_or, not_or] at hright
    rcases List.mem_append.1 hop with hop | hop
    · exact hcases hleft hright.1 (by simpa using hop)
    · exact ih hright.2.2 hop
  case joining =>
    intro other released others items out hother hreleased ih hright hop
    rw [List.mem_append, not_or] at hright
    rcases List.mem_append.1 hop with hop | hop
    · exact hreleased op (by simpa using hop)
    · refine ih ?_ hop
      rw [List.mem_cons, not_or]
      exact ⟨fun heq => absurd (heq ▸ hother) (by decide), hright.2⟩

end

section

variable {α : Type} (f : Expr → α)

theorem itemsOf_cons_operand {e : Expr} (h : e.isOperand) (es : List Expr) :
    itemsOf f (e :: es) = .operand (f e) :: itemsOf f es := by
  rw [← List.singleton_append, itemsOf_append, itemsOf_operand f h]
  rfl

theorem itemsOf_cons_operator (op : Operator) (es : List Expr) :
    itemsOf f (.operator op :: es) = .operator op :: itemsOf f es := rfl

/-- What is put into order has paired parentheses. -/
theorem paired_of_arrange (es : List Expr) {waiting : List Operator} {out : List (Item α)}
    (h : arrange waiting (itemsOf f es) = .ok out) : Paired (waiting.count .leftParen) es := by
  generalize hitems : itemsOf f es = items at h
  revert es
  refine arrange_induct ?nil ?operand ?opening ?closing ?joining h
  case nil =>
    intro waiting hleft es hitems
    obtain rfl := List.map_eq_nil_iff.1 hitems
    exact List.count_eq_zero.2 hleft
  case operand =>
    intro waiting a items out ih es hitems
    obtain ⟨e, es, rfl, he, hes⟩ := List.map_eq_cons_iff.1 hitems
    have hoperand : e.isOperand := by cases e <;> first | rfl | cases he
    exact (paired_operand hoperand _ es).2 (ih es hes)
  case opening =>
    intro waiting items out ih es hitems
    obtain ⟨e, es, rfl, he, hes⟩ := List.map_eq_cons_iff.1 hitems
    have hparen : e = .operator .leftParen := by cases e <;> cases he; rfl
    have hrest := ih es hes
    rw [List.count_cons_self] at hrest
    rw [hparen]
    exact hrest
  case closing =>
    intro released outer items out hleft ih es hitems
    obtain ⟨e, es, rfl, he, hes⟩ := List.map_eq_cons_iff.1 hitems
    have hparen : e = .operator .rightParen := by cases e <;> cases he; rfl
    rw [hparen, List.count_append, List.count_eq_zero.2 hleft, List.count_cons_self, Nat.zero_add]
    exact ih es hes
  case joining =>
    intro op released others items out hop hreleased ih es hitems
    obtain ⟨e, es, rfl, he, hes⟩ := List.map_eq_cons_iff.1 hitems
    have hop' : e = .operator op := by cases e <;> cases he; rfl
    have hne : op ≠ .leftParen := by rintro rfl; cases hop
    have hleft : .leftParen ∉ released := fun hmem => absurd (hreleased _ hmem) (by decide)
    have hrest := ih es hes
    rw [List.count_cons_of_ne hne] at hrest
    rw [hop', paired_connective hop, List.count_append, List.count_eq_zero.2 hleft, Nat.zero_add]
    exact hrest

theorem exists_of_operand_mem_itemsOf {es : List Expr} {a : α} (h : .operand a ∈ itemsOf f es) :
    ∃ e ∈ es, e.isOperand ∧ a = f e := by
  obtain ⟨e, hmem, hitem⟩ := List.mem_map.1 h
  cases e <;> cases hitem <;> exact ⟨_, hmem, rfl, rfl⟩

theorem mem_of_operator_mem_itemsOf {es : List Expr} {op : Operator} (h : .operator op ∈ itemsOf f es) :
    .operator op ∈ es := by
  obtain ⟨e, hmem, hitem⟩ := List.mem_map.1 h
  cases e <;> cases hitem
  exact hmem

theorem itemsOf_eq_map (es : List Expr) : itemsOf f es = (itemsOf id es).map (Item.map f) := by
  rw [itemsOf, itemsOf, List.map_map]
  refine List.map_congr_left fun e _ => ?_
  cases e <;> rfl

/-- The order of a sequence does not depend on what its operands are. -/
theorem arrange_itemsOf (es : List Expr) (waiting : List Operator) :
    arrange waiting (itemsOf f es) =
      (arrange waiting (itemsOf id es)).map fun out => itemsOf f (out.map (Item.expr id)) := by
  rw [itemsOf_eq_map, arrange_map]
  cases horder : arrange waiting (itemsOf id es) with
  | error side => rfl
  | ok out =>
    change Except.ok _ = Except.ok ((out.map (Item.expr id)).map fun e => e.item (f e))
    rw [List.map_map]
    refine congrArg Except.ok (List.map_congr_left fun item hitem => ?_)
    cases item with
    | operator op => rfl
    | operand e =>
      obtain ⟨_, -, hoperand, rfl⟩ := exists_of_operand_mem_itemsOf id (operand_mem_of_arrange horder hitem)
      cases e <;> first | rfl | cases hoperand

theorem postfixOrder_itemsOf (es : List Expr) :
    postfixOrder (itemsOf f es) = (postfixElements es).map (itemsOf f) := by
  rw [postfixOrder, arrange_itemsOf, postfixElements, postfixOrder]
  change _ = ((arrange [] (itemsOf id es)).map _).map _
  cases arrange [] (itemsOf id es) <;> rfl

end

/-! ## Orders of sequences -/

theorem postfixElements_eq (es : List Expr) :
    postfixElements es = (arrange [] (itemsOf id es)).map (·.map (Item.expr id)) := rfl

section

variable {es : List Expr}

/-- The order of a sequence has its operands and the operators between them, as often as they are there. -/
theorem countP_postfixElements {p : Expr → Bool} (hleft : p (.operator .leftParen) = false)
    (hright : p (.operator .rightParen) = false) {order : List Expr} (h : postfixElements es = .ok order) :
    order.countP p = es.countP p := by
  obtain ⟨out, hout, rfl⟩ := map_eq_ok_iff.1 h
  calc (out.map (Item.expr id)).countP p = out.countP (p ∘ Item.expr id) := List.countP_map
    _ = (itemsOf id es).countP (p ∘ Item.expr id) := countP_arrange hleft hright hout
    _ = ((itemsOf id es).map (Item.expr id)).countP p := List.countP_map.symm
    _ = es.countP p := by rw [map_expr_itemsOf id id fun _ => rfl]

/-- An order consists of operands of the sequence and of operators that are no parentheses. -/
theorem mem_postfixElements {order : List Expr} (h : postfixElements es = .ok order) {e : Expr} (he : e ∈ order) :
    e ∈ es ∧ e.isOperand ∨ ∃ op, op.isParen = false ∧ e = .operator op := by
  obtain ⟨out, hout, rfl⟩ := map_eq_ok_iff.1 h
  obtain ⟨item, hitem, rfl⟩ := List.mem_map.1 he
  cases item with
  | operator op => exact .inr ⟨op, not_isParen_of_mem_arrange (by simp) hout hitem, rfl⟩
  | operand a =>
    obtain ⟨_, hmem, hoperand, rfl⟩ := exists_of_operand_mem_itemsOf id (operand_mem_of_arrange hout hitem)
    exact .inl ⟨hmem, hoperand⟩

theorem not_isParen_of_mem_order {order : List Expr} (h : postfixElements es = .ok order) {op : Operator}
    (hop : .operator op ∈ order) : op.isParen = false := by
  rcases mem_postfixElements h hop with ⟨-, hoperand⟩ | ⟨op', hop', heq⟩
  · cases hoperand
  · cases heq
    exact hop'

end

theorem filterMap_operand?_itemsOf (es : List Expr) :
    (itemsOf id es).filterMap Item.operand? = es.filter Expr.isOperand := by
  induction es with
  | nil => rfl
  | cons e es ih =>
    by_cases he : e.isOperand
    · rw [itemsOf_cons_operand id he]
      simp [Item.operand?, he, ih]
    · obtain ⟨op, rfl⟩ := Expr.eq_operator_of_not_isOperand he
      exact ih

/-- The operands of a sequence stand in its order as they stand in the sequence. -/
theorem filter_postfixElements {es order : List Expr} (h : postfixElements es = .ok order) :
    order.filter Expr.isOperand = es.filter Expr.isOperand := by
  have horder : arrange [] (itemsOf id es) = .ok (itemsOf id order) := by
    rw [← postfixOrder, postfixOrder_itemsOf, h]
    rfl
  rw [← filterMap_operand?_itemsOf, ← filterMap_operand?_itemsOf, operands_arrange horder]

end Calculator
