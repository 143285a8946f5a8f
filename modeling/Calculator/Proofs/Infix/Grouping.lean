/-
How the operators of a flat sequence group its operands.

`IsInfix` is the grammar of well-formed sequences, in which precedence plays no part. `Groups` resolves precedence: it
relates a sequence to a tree of operators in which every operator has on its left only what binds at least as tightly
as itself, and on its right only what binds tighter. So operators of equal precedence associate to the left.

- `IsInfix.exists_groups`: every well-formed sequence groups in some way;
- `Groups.arrange`: while such a sequence is brought into postfix order, what is put out and what still waits make up
  the post-order of its tree;
- `Groups.postfixElements`: the postfix order is the post-order of the tree;
- `Groups.unique`: there is one tree only.
-/
import Calculator.Evaluation

namespace Calculator

/-! ## Grammar -/

/-- any element of a sequence but an operator -/
def Expr.isOperand : Expr → Bool
  | operator _ => false
  | _ => true

/-- the well-formed sequences: operands with an operator between any two, and groups in parentheses -/
inductive IsInfix : List Expr → Prop where
  | operand {e : Expr} (h : e.isOperand) : IsInfix [e]
  | binary {op : Operator} {es fs : List Expr} (hop : op.isParen = false) (left : IsInfix es) (right : IsInfix fs) :
      IsInfix (es ++ .operator op :: fs)
  | group {es : List Expr} (inner : IsInfix es) : IsInfix (.operator .leftParen :: (es ++ [.operator .rightParen]))

/-- a binary tree of operators over operands -/
inductive Grouping where
  | operand (e : Expr) (h : e.isOperand)
  | binary (op : Operator) (left right : Grouping)

/-- the operands and operators of a tree, each operator behind its two operands -/
def Grouping.postorder : Grouping → List Expr
  | operand e _ => [e]
  | binary op left right => left.postorder ++ right.postorder ++ [.operator op]

/-- `Groups p es g`: the sequence `es` groups as `g`, and its operators outside parentheses have at least precedence `p`.
-/
inductive Groups : Nat → List Expr → Grouping → Prop where
  | operand {p : Nat} {e : Expr} (h : e.isOperand) : Groups p [e] (.operand e h)
  | group {p : Nat} {es : List Expr} {g : Grouping} (inner : Groups 0 es g) :
      Groups p (.operator .leftParen :: (es ++ [.operator .rightParen])) g
  | binary {p : Nat} {op : Operator} {es fs : List Expr} {l r : Grouping} (hop : op.isParen = false)
      (hp : p ≤ op.precedence) (left : Groups op.precedence es l) (right : Groups (op.precedence + 1) fs r) :
      Groups p (es ++ .operator op :: fs) (.binary op l r)

/-! ## Every well-formed sequence groups -/

/-- An operator and one more operand, which may be a group, behind a sequence: the operator takes as its left operand
what stands on the right edge of the tree and binds at least as tightly. -/
theorem Groups.exists_snoc {op : Operator} (hop : op.isParen = false) {fs : List Expr} {r : Grouping}
    (hr : ∀ q, Groups q fs r) {p : Nat} {es : List Expr} {l : Grouping} (hl : Groups p es l) :
    ∀ q, q ≤ p → q ≤ op.precedence → ∃ g, Groups q (es ++ .operator op :: fs) g := by
  induction hl with
  | operand h => exact fun q _ hq => ⟨_, .binary hop hq (.operand h) (hr _)⟩
  | group inner _ => exact fun q _ hq => ⟨_, .binary hop hq (.group inner) (hr _)⟩
  | @binary p other es₁ es₂ l₁ l₂ hother hp left right _ ih =>
    intro q hqp hq
    by_cases hle : op.precedence ≤ other.precedence
    · exact ⟨_, .binary hop hq (.binary hother hle left right) (hr _)⟩
    · obtain ⟨g, hg⟩ := ih (other.precedence + 1) (Nat.le_refl _) (by omega)
      refine ⟨.binary other l₁ g, ?_⟩
      rw [List.append_assoc, List.cons_append]
      exact .binary hother (Nat.le_trans hqp hp) left hg

/-- Well-formed sequences group, also behind another one and an operator. -/
theorem IsInfix.exists_groups_behind {fs : List Expr} (h : IsInfix fs) :
    (∃ g, Groups 0 fs g) ∧
      ∀ {op : Operator} {es : List Expr} {l : Grouping}, op.isParen = false → Groups 0 es l →
        ∃ g, Groups 0 (es ++ .operator op :: fs) g := by
  induction h with
  | operand h =>
    refine ⟨⟨_, .operand h⟩, fun hop hl => ?_⟩
    exact hl.exists_snoc hop (fun _ => .operand h) 0 (Nat.le_refl _) (Nat.zero_le _)
  | @binary op es fs hop _ _ ihl ihr =>
    obtain ⟨l, hl⟩ := ihl.1
    refine ⟨ihr.2 hop hl, fun hop' hl' => ?_⟩
    obtain ⟨g, hg⟩ := ihl.2 hop' hl'
    rw [← List.cons_append, ← List.append_assoc]
    exact ihr.2 hop hg
  | group _ ih =>
    obtain ⟨g, hg⟩ := ih.1
    refine ⟨⟨_, .group hg⟩, fun hop hl => ?_⟩
    exact hl.exists_snoc hop (fun _ => .group hg) 0 (Nat.le_refl _) (Nat.zero_le _)

theorem IsInfix.exists_groups {es : List Expr} (h : IsInfix es) : ∃ g, Groups 0 es g := h.exists_groups_behind.1

/-! ## Postfix order -/

/-- the elements of a sequence as items, with what `f` makes of each operand -/
def itemsOf {α : Type} (f : Expr → α) (es : List Expr) : List (Item α) := es.map fun e => e.item (f e)

theorem itemsOf_append {α : Type} (f : Expr → α) (es fs : List Expr) :
    itemsOf f (es ++ fs) = itemsOf f es ++ itemsOf f fs := List.map_append

theorem itemsOf_operators {α : Type} (f : Expr → α) (ops : List Operator) :
    itemsOf f (ops.map .operator) = ops.map .operator := by
  simp [itemsOf, Expr.item]

theorem itemsOf_operand {α : Type} (f : Expr → α) {e : Expr} (h : e.isOperand) : itemsOf f [e] = [.operand (f e)] := by
  cases e <;> simp_all [itemsOf, Expr.item, Expr.isOperand]

theorem map_expr_itemsOf {α : Type} (f : Expr → α) (g : α → Expr) (hg : ∀ e, g (f e) = e) (es : List Expr) :
    (itemsOf f es).map (Item.expr g) = es := by
  rw [itemsOf, List.map_map]
  refine (List.map_congr_left fun e _ => ?_).trans (List.map_id es)
  cases e <;> simp [Expr.item, Item.expr, hg]

/-- the last waiting operator is not released by one of precedence `p` or above -/
def Waits (p : Nat) (waiting : List Operator) : Prop := ∀ o ∈ waiting.head?, o = .leftParen ∨ o.precedence < p

theorem takeWhile_waiting {p : Nat} {pending waiting : List Operator} {op : Operator} (hop : op.isParen = false)
    (hpending : ∀ o ∈ pending, op.precedence ≤ o.precedence) (hw : Waits p waiting) (hp : p ≤ op.precedence) :
    (pending ++ waiting).takeWhile (fun o => op.precedence ≤ o.precedence) = pending ∧
      (pending ++ waiting).dropWhile (fun o => op.precedence ≤ o.precedence) = waiting := by
  have hpos := (Operator.precedence_pos_iff op).2 hop
  rw [List.takeWhile_append_of_pos (by simpa using hpending), List.dropWhile_append_of_pos (by simpa using hpending)]
  cases waiting with
  | nil => simp
  | cons o waiting =>
    have hlt : ¬ op.precedence ≤ o.precedence := by
      rcases hw o rfl with rfl | h
      · exact Nat.not_le.2 hpos
      · omega
    simp [hlt]

theorem takeWhile_group {pending : List Operator} (waiting : List Operator) (h : .leftParen ∉ pending) :
    (pending ++ .leftParen :: waiting).takeWhile (· != .leftParen) = pending ∧
      (pending ++ .leftParen :: waiting).dropWhile (· != .leftParen) = .leftParen :: waiting := by
  have hne : ∀ o ∈ pending, (o != .leftParen) = true := by
    intro o ho
    rw [bne_iff_ne]; rintro rfl
    exact h ho
  rw [List.takeWhile_append_of_pos hne, List.dropWhile_append_of_pos hne]
  simp

theorem map_prepend {ε α : Type} (as bs : List α) (x : Except ε (List α)) :
    (x.map (bs ++ ·)).map (as ++ ·) = x.map ((as ++ bs) ++ ·) := by
  cases x <;> simp [Except.map]

/-- **What a sequence contributes.** After the items of a sequence, the operators on the right edge of its tree wait;
they and what was put out before them are the post-order of the tree. -/
theorem Groups.arrange {α : Type} (f : Expr → α) {p : Nat} {es : List Expr} {g : Grouping} (h : Groups p es g) :
    ∀ waiting : List Operator, Waits p waiting → ∃ (out : List Expr) (pending : List Operator),
      g.postorder = out ++ pending.map .operator ∧ (∀ o ∈ pending, o.isParen = false ∧ p ≤ o.precedence) ∧
      ∀ rest, Calculator.arrange waiting (itemsOf f es ++ rest) =
        (Calculator.arrange (pending ++ waiting) rest).map (itemsOf f out ++ ·) := by
  induction h with
  | @operand p e h =>
    intro waiting _
    refine ⟨[e], [], by simp [Grouping.postorder], by simp, fun rest => ?_⟩
    rw [itemsOf_operand f h]
    rfl
  | @group p es g _ ih =>
    intro waiting _
    obtain ⟨out, pending, hpost, hpending, harr⟩ := ih (.leftParen :: waiting) (by simp [Waits])
    refine ⟨g.postorder, [], by simp, by simp, fun rest => ?_⟩
    obtain ⟨htake, hdrop⟩ := takeWhile_group waiting fun hmem => absurd (hpending _ hmem).1 (by decide)
    have hitems : itemsOf f (.operator .leftParen :: (es ++ [.operator .rightParen])) ++ rest =
        .operator .leftParen :: (itemsOf f es ++ .operator .rightParen :: rest) := by
      simp [itemsOf, Expr.item]
    rw [hitems, Calculator.arrange, harr, Calculator.arrange, htake, hdrop, hpost, itemsOf_append, itemsOf_operators]
    exact map_prepend ..
  | @binary p op es fs l r hop hp _ _ ihl ihr =>
    intro waiting hw
    have hw' : Waits op.precedence waiting := fun o ho => (hw o ho).imp_right fun h => Nat.lt_of_lt_of_le h hp
    obtain ⟨out₁, pending₁, hpost₁, hpending₁, harr₁⟩ := ihl waiting hw'
    obtain ⟨out₂, pending₂, hpost₂, hpending₂, harr₂⟩ := ihr (op :: waiting) (by simp [Waits])
    refine ⟨out₁ ++ pending₁.map .operator ++ out₂, pending₂ ++ [op], ?_, fun o ho => ?_, fun rest => ?_⟩
    · simp [Grouping.postorder, hpost₁, hpost₂]
    · rcases List.mem_append.1 ho with ho | ho
      · exact ⟨(hpending₂ o ho).1, by have := (hpending₂ o ho).2; omega⟩
      · rw [List.mem_singleton.1 ho]; exact ⟨hop, hp⟩
    · obtain ⟨htake, hdrop⟩ := takeWhile_waiting hop (fun o ho => (hpending₁ o ho).2) hw hp
      have hitems : itemsOf f (es ++ .operator op :: fs) ++ rest =
          itemsOf f es ++ .operator op :: (itemsOf f fs ++ rest) := by
        simp [itemsOf, Expr.item]
      have hstep : Calculator.arrange (pending₁ ++ waiting) (.operator op :: (itemsOf f fs ++ rest)) =
          (Calculator.arrange (op :: waiting) (itemsOf f fs ++ rest)).map (pending₁.map .operator ++ ·) := by
        rw [Calculator.arrange, htake, hdrop]
        · rintro rfl; exact absurd hop (by decide)
        · rintro rfl; exact absurd hop (by decide)
      rw [hitems, harr₁, hstep, harr₂, map_prepend, map_prepend, itemsOf_append, itemsOf_append, itemsOf_operators,
        List.append_assoc pending₂]
      rfl

/-- The postfix order of a sequence, whatever stands for its operands, is the post-order of its tree. -/
theorem Groups.postfixOrder {α : Type} (f : Expr → α) {es : List Expr} {g : Grouping} (h : Groups 0 es g) :
    Calculator.postfixOrder (itemsOf f es) = .ok (itemsOf f g.postorder) := by
  obtain ⟨out, pending, hpost, hpending, harr⟩ := h.arrange f [] (by simp [Waits])
  have hparen : Operator.leftParen ∉ pending := fun hmem => absurd (hpending _ hmem).1 (by decide)
  have hall := harr []
  rw [List.append_nil, List.append_nil, Calculator.arrange, if_neg hparen] at hall
  rw [Calculator.postfixOrder, hall, hpost, itemsOf_append, itemsOf_operators]
  rfl

theorem Groups.postfixElements {es : List Expr} {g : Grouping} (h : Groups 0 es g) :
    Calculator.postfixElements es = .ok g.postorder := by
  have horder := h.postfixOrder id
  rw [itemsOf] at horder
  rw [Calculator.postfixElements]
  exact (congrArg _ horder).trans (congrArg Except.ok (map_expr_itemsOf id id (fun _ => rfl) _))

/-! ## There is one tree only -/

/-- Post-orders are read back from their ends: the last element tells an operand from an operator. -/
theorem Grouping.postorder_append_inj {g h : Grouping} {es fs : List Expr}
    (heq : es ++ g.postorder = fs ++ h.postorder) : g = h ∧ es = fs := by
  induction g generalizing h es fs with
  | operand e he =>
    cases h with
    | operand e' he' =>
      obtain ⟨hes, hlast⟩ := List.append_inj' heq rfl
      cases hlast
      exact ⟨rfl, hes⟩
    | binary op l r =>
      have hlast := congrArg List.getLast? heq
      simp only [postorder, List.getLast?_append, List.getLast?_singleton, Option.some_or] at hlast
      cases hlast
      exact absurd he (by simp [Expr.isOperand])
  | binary op l r ihl ihr =>
    cases h with
    | operand e' he' =>
      have hlast := congrArg List.getLast? heq
      simp only [postorder, List.getLast?_append, List.getLast?_singleton, Option.some_or] at hlast
      cases hlast
      exact absurd he' (by simp [Expr.isOperand])
    | binary op' l' r' =>
      simp only [postorder, ← List.append_assoc] at heq
      obtain ⟨hinit, hlast⟩ := List.append_inj' heq rfl
      cases hlast
      obtain ⟨rfl, hleft⟩ := ihr hinit
      obtain ⟨rfl, hes⟩ := ihl hleft
      exact ⟨rfl, hes⟩

/-- A sequence groups in one way only. -/
theorem Groups.unique {es : List Expr} {g h : Grouping} (hg : Groups 0 es g) (hh : Groups 0 es h) : g = h := by
  have heq := Except.ok.inj (hg.postfixElements.symm.trans hh.postfixElements)
  exact (Grouping.postorder_append_inj (congrArg ([] ++ ·) heq)).1

end Calculator
