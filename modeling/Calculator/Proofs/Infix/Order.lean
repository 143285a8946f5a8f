/-
Postfix order, one item at a time.

`Advances` is all that one item can do while a sequence is brought into order: what it releases, and which operators
wait behind it. The one item that has no such step is a closing parenthesis while no opening one waits. A group in
parentheses is brought into order as a sequence of its own, because no item in it reaches below the opening parenthesis.

- `exists_advances`, `Advances.arrange_cons`: every item advances, or the order is refused;
- `arrange_append`: the beginning of a sequence releases some items and leaves some operators to wait, or refuses it;
- `arrange_group`: a group releases its own order, and leaves waiting what waited in front of it;
- `arrange_induct`: induction over an order that is found.
-/
import Calculator.Proofs.Infix.Grouping
import Calculator.Proofs.Results
import Mathlib.Data.List.TakeWhile

namespace Calculator

section

variable {α : Type}

/-- `Advances waiting item out waiting'`: while `waiting` wait, `item` puts `out` into the order, and behind it
`waiting'` wait. -/
inductive Advances : List Operator → Item α → List (Item α) → List Operator → Prop where
  | operand (waiting : List Operator) (a : α) : Advances waiting (.operand a) [.operand a] waiting
  | opening (waiting : List Operator) : Advances waiting (.operator .leftParen) [] (.leftParen :: waiting)
  | closing {released : List Operator} (outer : List Operator) (h : .leftParen ∉ released) :
      Advances (released ++ .leftParen :: outer) (.operator .rightParen) (released.map .operator) outer
  | joining {op : Operator} {released others : List Operator} (hop : op.isParen = false)
      (hreleased : ∀ o ∈ released, op.precedence ≤ o.precedence) (hothers : Waits op.precedence others) :
      Advances (released ++ others) (.operator op) (released.map .operator) (op :: others)

variable {waiting waiting' : List Operator} {item : Item α} {items out : List (Item α)}

/-! ## One item -/

theorem Advances.arrange_cons (h : Advances waiting item out waiting') (items : List (Item α)) :
    arrange waiting (item :: items) = (arrange waiting' items).map (out ++ ·) := by
  cases h with
  | operand => rw [arrange]; rfl
  | opening =>
    rw [arrange]
    cases arrange (.leftParen :: waiting) items <;> rfl
  | @closing released _ hreleased =>
    obtain ⟨htake, hdrop⟩ := takeWhile_group waiting' hreleased
    rw [arrange, htake, hdrop]
  | @joining op released others hop hreleased hothers =>
    obtain ⟨htake, hdrop⟩ := takeWhile_waiting hop hreleased hothers (Nat.le_refl _)
    rw [arrange, htake, hdrop]
    · rintro rfl; exact absurd hop (by decide)
    · rintro rfl; exact absurd hop (by decide)

theorem arrange_unmatched (h : .leftParen ∉ waiting) (items : List (Item α)) :
    arrange waiting (.operator .rightParen :: items) = .error .right := by
  have hall : ∀ o ∈ waiting, (o != .leftParen) = true := by
    intro o ho
    rw [bne_iff_ne]
    rintro rfl
    exact h ho
  have hdrop : waiting.dropWhile (· != .leftParen) = [] := List.dropWhile_eq_nil_iff.2 hall
  rw [arrange, hdrop]

/-- **Every item advances**, but a closing parenthesis that has no partner. -/
theorem exists_advances (waiting : List Operator) (item : Item α) :
    (∃ out waiting', Advances waiting item out waiting') ∨ item = .operator .rightParen ∧ .leftParen ∉ waiting := by
  cases item with
  | operand a => exact .inl ⟨_, _, .operand waiting a⟩
  | operator op =>
    by_cases hop : op.isParen = false
    · -- What is released binds at least as tightly, and what stands below it does not.
      have hsplit : waiting.takeWhile (fun o => op.precedence ≤ o.precedence) ++
          waiting.dropWhile (fun o => op.precedence ≤ o.precedence) = waiting := List.takeWhile_append_dropWhile
      rw [← hsplit]
      refine .inl ⟨_, _, .joining hop (fun o ho => by simpa using List.mem_takeWhile_imp ho) fun o ho => ?_⟩
      have hhead := List.head?_dropWhile_not (fun o => decide (op.precedence ≤ o.precedence)) waiting
      rw [Option.mem_def.1 ho] at hhead
      exact .inr (by simpa using hhead)
    · cases op with
      | leftParen => exact .inl ⟨_, _, .opening waiting⟩
      | rightParen =>
        by_cases hmem : .leftParen ∈ waiting
        · obtain ⟨released, outer, rfl, hreleased⟩ := List.eq_append_cons_of_mem hmem
          exact .inl ⟨_, _, .closing outer hreleased⟩
        · exact .inr ⟨rfl, hmem⟩
      | _ => exact absurd rfl hop

/-- In a group, an item does what it would do without anything below the opening parenthesis. -/
theorem Advances.in_group (h : Advances waiting item out waiting') (outer : List Operator) :
    Advances (waiting ++ .leftParen :: outer) item out (waiting' ++ .leftParen :: outer) := by
  cases h with
  | operand _ a => exact .operand _ a
  | opening => exact .opening _
  | closing _ hreleased =>
    rw [List.append_assoc, List.cons_append]
    exact .closing _ hreleased
  | @joining op released others hop hreleased hothers =>
    rw [List.append_assoc]
    refine .joining hop hreleased fun o ho => ?_
    cases others with
    | nil => exact .inl (Option.some.inj ho).symm
    | cons other others => exact hothers o ho

/-! ## The beginning of a sequence -/

/-- **The beginning of a sequence** has a closing parenthesis without a partner, or it releases the same items and
leaves the same operators to wait, whatever stands behind it. -/
theorem arrange_append (waiting : List Operator) (items : List (Item α)) :
    (∀ rest, arrange waiting (items ++ rest) = .error .right) ∨
      ∃ out waiting', ∀ rest, arrange waiting (items ++ rest) = (arrange waiting' rest).map (out ++ ·) := by
  induction items generalizing waiting with
  | nil =>
    refine .inr ⟨[], waiting, fun rest => ?_⟩
    rw [List.nil_append]
    cases arrange waiting rest <;> rfl
  | cons item items ih =>
    rcases exists_advances waiting item with ⟨out, waiting', hstep⟩ | ⟨rfl, hunmatched⟩
    · rcases ih waiting' with hrefused | ⟨out', waiting'', hrest⟩
      · refine .inl fun rest => ?_
        rw [List.cons_append, hstep.arrange_cons, hrefused]
        rfl
      · refine .inr ⟨out ++ out', waiting'', fun rest => ?_⟩
        rw [List.cons_append, hstep.arrange_cons, hrest, map_prepend]
    · exact .inl fun rest => arrange_unmatched hunmatched _

/-! ## Groups -/

/-- **A group releases its own order**, and behind it waits what waited in front of it. -/
theorem arrange_group (h : arrange waiting items = .ok out) (outer : List Operator) (rest : List (Item α)) :
    arrange (waiting ++ .leftParen :: outer) (items ++ .operator .rightParen :: rest) =
      (arrange outer rest).map (out ++ ·) := by
  induction items generalizing waiting out with
  | nil =>
    rw [arrange] at h
    split at h
    · cases h
    · rename_i hnone
      cases h
      exact (Advances.closing outer hnone).arrange_cons rest
  | cons item items ih =>
    rcases exists_advances waiting item with ⟨out', waiting', hstep⟩ | ⟨rfl, hunmatched⟩
    · rw [hstep.arrange_cons] at h
      obtain ⟨inner, hinner, rfl⟩ := map_eq_ok_iff.1 h
      rw [List.cons_append, (hstep.in_group outer).arrange_cons, ih hinner, map_prepend]
    · rw [arrange_unmatched hunmatched] at h
      cases h

/-! ## Whole orders -/

/-- **Induction over an order that is found.** An operand is put out, an opening parenthesis waits, a closing one
releases what waits above the opening one, and an operator releases some operators and waits itself. -/
@[elab_as_elim]
theorem arrange_induct {P : List Operator → List (Item α) → List (Item α) → Prop}
    (nil : ∀ waiting, .leftParen ∉ waiting → P waiting [] (waiting.map .operator))
    (operand : ∀ waiting a items out, P waiting items out → P waiting (.operand a :: items) (.operand a :: out))
    (opening : ∀ waiting items out, P (.leftParen :: waiting) items out →
      P waiting (.operator .leftParen :: items) out)
    (closing : ∀ released outer items out, .leftParen ∉ released → P outer items out →
      P (released ++ .leftParen :: outer) (.operator .rightParen :: items) (released.map .operator ++ out))
    (joining : ∀ op released others items out, op.isParen = false → (∀ o ∈ released, o.isParen = false) →
      P (op :: others) items out → P (released ++ others) (.operator op :: items) (released.map .operator ++ out))
    {waiting : List Operator} {items out : List (Item α)} (h : arrange waiting items = .ok out) :
    P waiting items out := by
  induction items generalizing waiting out with
  | nil =>
    rw [arrange] at h
    split at h
    · cases h
    · rename_i hnone
      cases h
      exact nil waiting hnone
  | cons item items ih =>
    rcases exists_advances waiting item with ⟨out', waiting', hstep⟩ | ⟨rfl, hunmatched⟩
    · rw [hstep.arrange_cons] at h
      obtain ⟨rest, hrest, rfl⟩ := map_eq_ok_iff.1 h
      have hP := ih hrest
      cases hstep with
      | operand _ a => exact operand _ a _ _ hP
      | opening => exact opening _ _ _ hP
      | closing _ hreleased => exact closing _ _ _ _ hreleased hP
      | @joining op released others hop hreleased _ =>
        have hpos := (Operator.precedence_pos_iff op).2 hop
        refine joining op released others _ _ hop (fun o ho => ?_) hP
        exact (Operator.precedence_pos_iff o).1 (Nat.lt_of_lt_of_le hpos (hreleased o ho))
    · rw [arrange_unmatched hunmatched] at h
      cases h

end

end Calculator
