/-
When the parentheses of a sequence have partners.

While a sequence is brought into postfix order, the parentheses that are open wait among the operators; every other
operator comes and goes above them. So whether there is an order is a matter of counting: none if some beginning of the
sequence closes more parentheses than it opens, none if the whole opens more than it closes, and one in all other cases.

- `Advances.count`: an item opens and closes parentheses, and does nothing else to those that are open;
- `arrange_parens`, `postfixElements_parens`: which of the three cases a sequence comes to.
-/
import Calculator.Proofs.Infix.Contents

namespace Calculator

/-! ## Counting -/

/-- an element that is one operator -/
def Expr.isOperator (op : Operator) : Expr → Bool
  | operator other => other == op
  | _ => false

/-- the number of opening parentheses -/
def openings (es : List Expr) : Nat := es.countP (Expr.isOperator .leftParen)

/-- the number of closing parentheses -/
def closings (es : List Expr) : Nat := es.countP (Expr.isOperator .rightParen)

/-- With some parentheses open in front, some beginning of a sequence closes more than are open. -/
def Overclosed (depth : Nat) (es : List Expr) : Prop := ∃ n, depth + openings (es.take n) < closings (es.take n)

/-- Every closing parenthesis has a partner in front of it, and every opening one has one behind it. -/
structure Balanced (es : List Expr) : Prop where
  closed : ¬ Overclosed 0 es
  even : closings es = openings es

/-- A sequence that never closes too many parentheses closes at most all. -/
theorem Balanced.of_not_lt {es : List Expr} (h : ¬ Overclosed 0 es) (hlt : ¬ closings es < openings es) :
    Balanced es := by
  refine ⟨h, Nat.le_antisymm (Nat.le_of_not_lt fun hover => h ⟨es.length, ?_⟩) (Nat.le_of_not_lt hlt)⟩
  rwa [List.take_length, Nat.zero_add]

theorem openings_cons (e : Expr) (es : List Expr) : openings (e :: es) = openings [e] + openings es := by
  simp only [openings, List.countP_cons, List.countP_nil]
  omega

theorem closings_cons (e : Expr) (es : List Expr) : closings (e :: es) = closings [e] + closings es := by
  simp only [closings, List.countP_cons, List.countP_nil]
  omega

theorem overclosed_cons {depth depth' : Nat} {e : Expr} (h : depth' + closings [e] = depth + openings [e])
    (es : List Expr) : Overclosed depth (e :: es) ↔ Overclosed depth' es := by
  have hbeginning : ∀ n, openings ((e :: es).take (n + 1)) = openings [e] + openings (es.take n) ∧
      closings ((e :: es).take (n + 1)) = closings [e] + closings (es.take n) := by
    intro n
    rw [List.take_succ_cons]
    exact ⟨openings_cons e _, closings_cons e _⟩
  constructor
  · intro h
    obtain ⟨n, hn⟩ := h
    cases n with
    | zero => exact absurd hn (Nat.not_lt_zero _)
    | succ n => exact ⟨n, by have := hbeginning n; omega⟩
  · intro h
    obtain ⟨n, hn⟩ := h
    exact ⟨n + 1, by have := hbeginning n; omega⟩

section

variable {α : Type} {waiting waiting' : List Operator} {out : List (Item α)}

/-- What is open behind an element is what was open and what the element opens, less what it closes. -/
theorem Advances.count {e : Expr} {a : α} (h : Advances waiting (e.item a) out waiting') :
    waiting'.count .leftParen + closings [e] = waiting.count .leftParen + openings [e] := by
  generalize hitem : e.item a = item at h
  cases h with
  | operand b => cases e <;> first | rfl | cases hitem
  | opening =>
    obtain rfl : e = .operator .leftParen := by cases e <;> cases hitem; rfl
    simp [openings, closings, Expr.isOperator]
  | @closing released _ hreleased =>
    obtain rfl : e = .operator .rightParen := by cases e <;> cases hitem; rfl
    simp [openings, closings, Expr.isOperator, List.count_eq_zero.2 hreleased]
  | @joining op released others hop hreleased _ =>
    obtain rfl : e = .operator op := by cases e <;> cases hitem; rfl
    have hpos := (Operator.precedence_pos_iff op).2 hop
    have hnone : .leftParen ∉ released := fun hmem => absurd (hreleased _ hmem) (Nat.not_le.2 hpos)
    have hleft : op ≠ .leftParen := by rintro rfl; cases hop
    have hright : op ≠ .rightParen := by rintro rfl; cases hop
    simp [openings, closings, Expr.isOperator, List.count_eq_zero.2 hnone, hleft, hright]

/-! ## The three cases -/

/-- What the parentheses of a sequence come to, with those in front that wait for a partner. -/
theorem arrange_parens (f : Expr → α) (es : List Expr) (waiting : List Operator) :
    match arrange waiting (itemsOf f es) with
    | .error .right => Overclosed (waiting.count .leftParen) es
    | .error .left =>
      ¬ Overclosed (waiting.count .leftParen) es ∧ closings es < waiting.count .leftParen + openings es
    | .ok _ => ¬ Overclosed (waiting.count .leftParen) es ∧ closings es = waiting.count .leftParen + openings es := by
  induction es generalizing waiting with
  | nil =>
    have hclosed : ¬ Overclosed (waiting.count .leftParen) [] := by simp [Overclosed, closings]
    by_cases hmem : .leftParen ∈ waiting
    · rw [itemsOf, List.map_nil, arrange, if_pos hmem]
      exact ⟨hclosed, List.count_pos_iff.2 hmem⟩
    · rw [itemsOf, List.map_nil, arrange, if_neg hmem]
      exact ⟨hclosed, (List.count_eq_zero.2 hmem).symm⟩
  | cons e es ih =>
    have hitems : itemsOf f (e :: es) = e.item (f e) :: itemsOf f es := rfl
    rw [hitems]
    rcases exists_advances waiting (e.item (f e)) with ⟨out, waiting', hstep⟩ | ⟨hclosing, hnone⟩
    · have hrest := ih waiting'
      have hcount := hstep.count
      rw [hstep.arrange_cons, overclosed_cons hcount, openings_cons, closings_cons]
      cases horder : arrange waiting' (itemsOf f es) with
      | error side =>
        rw [horder] at hrest
        cases side with
        | left => exact ⟨hrest.1, by have := hrest.2; omega⟩
        | right => exact hrest
      | ok out' =>
        rw [horder] at hrest
        exact ⟨hrest.1, by have := hrest.2; omega⟩
    · obtain rfl : e = .operator .rightParen := by cases e <;> cases hclosing; rfl
      rw [hclosing, arrange_unmatched hnone]
      exact ⟨1, by simp [openings, closings, Expr.isOperator, List.count_eq_zero.2 hnone]⟩

end

section

variable (es : List Expr)

/-- **Counting parentheses** tells whether a sequence has an order, and if not, which parenthesis has no partner. -/
theorem postfixElements_parens :
    match postfixElements es with
    | .error .right => Overclosed 0 es
    | .error .left => ¬ Overclosed 0 es ∧ closings es < openings es
    | .ok _ => ¬ Overclosed 0 es ∧ closings es = openings es := by
  have hparens := arrange_parens id es []
  rw [List.count_nil, Nat.zero_add] at hparens
  rw [postfixElements_eq]
  rcases horder : arrange [] (itemsOf id es) with (_ | _) | out <;> rw [horder] at hparens
  · exact hparens
  · exact hparens
  · exact hparens

theorem postfixElements_eq_right_iff : postfixElements es = .error .right ↔ Overclosed 0 es := by
  have hparens := postfixElements_parens es
  rcases horder : postfixElements es with (_ | _) | order <;> rw [horder] at hparens
  · simp [hparens.1]
  · simp [hparens]
  · simp [hparens.1]

theorem postfixElements_eq_left_iff :
    postfixElements es = .error .left ↔ ¬ Overclosed 0 es ∧ closings es < openings es := by
  have hparens := postfixElements_parens es
  rcases horder : postfixElements es with (_ | _) | order <;> rw [horder] at hparens
  · simp [hparens]
  · simp [hparens]
  · simp [hparens.2]

/-- The sequences that have an order are the balanced ones. -/
theorem exists_postfixElements_iff : (∃ order, postfixElements es = .ok order) ↔ Balanced es := by
  have hparens := postfixElements_parens es
  rcases horder : postfixElements es with (_ | _) | order <;> rw [horder] at hparens
  · simp only [reduceCtorEq, exists_false, false_iff]
    exact fun h => absurd hparens.2 (by rw [h.even]; exact Nat.lt_irrefl _)
  · simp only [reduceCtorEq, exists_false, false_iff]
    exact fun h => h.closed hparens
  · exact ⟨fun _ => ⟨hparens.1, hparens.2⟩, fun _ => ⟨order, rfl⟩⟩

end

end Calculator
