/-
A group in parentheses is a sequence of its own.

A group shares the waiting operators of the sequence around it, and its operators are reduced on the stack of that
sequence, at a time of their own. Neither shows: the order of the group stands in the order of the whole as one stretch
(`postfixElements_group`), and the machine that runs through this stretch only puts an operand on top of the stack
(`runStack_itemsOf`). What operands are on the stack does not count, only what evaluating them comes to
(`runStack_congr`), so a sequence that has a value may stand for the group.

- `postfixElements_group`: the order with a group, and the order with an operand in its place;
- `runStack_congr`: the machine goes on in the same way behind two stretches that leave the same outcomes;
- `outcome_group`: a group and a nested sequence are evaluated alike, whatever surrounds them.
-/
import Calculator.Proofs.Infix.Evaluable
import Mathlib.Data.List.Forall2

namespace Calculator

/-! ## Order -/

/-- **A group stands in the order as one stretch**, where an operand in its place would stand; or what stands before or
behind refuses both. -/
theorem postfixElements_group {xs order : List Expr} (h : postfixElements xs = .ok order) {e : Expr} (he : e.isOperand)
    (pre post : List Expr) :
    (∃ side, postfixElements (pre ++ e :: post) = .error side ∧
        postfixElements (pre ++ .operator .leftParen :: (xs ++ .operator .rightParen :: post)) = .error side) ∨
      ∃ before after, postfixElements (pre ++ e :: post) = .ok (before ++ e :: after) ∧
        postfixElements (pre ++ .operator .leftParen :: (xs ++ .operator .rightParen :: post)) =
          .ok (before ++ (order ++ after)) := by
  obtain ⟨inner, hinner, rfl⟩ := map_eq_ok_iff.1 h
  have hoperand : itemsOf id (pre ++ e :: post) = itemsOf id pre ++ .operand e :: itemsOf id post := by
    rw [itemsOf_append, itemsOf_cons_operand id he]
    rfl
  have hgroup : itemsOf id (pre ++ .operator .leftParen :: (xs ++ .operator .rightParen :: post)) =
      itemsOf id pre ++ .operator .leftParen :: (itemsOf id xs ++ .operator .rightParen :: itemsOf id post) := by
    rw [itemsOf_append, itemsOf_cons_operator, itemsOf_append, itemsOf_cons_operator]
  rw [postfixElements_eq, postfixElements_eq, hoperand, hgroup]
  rcases arrange_append [] (itemsOf id pre) with hrefused | ⟨out, waiting, hpre⟩
  · exact .inl ⟨.right, by rw [hrefused]; rfl, by rw [hrefused]; rfl⟩
  · have hclose : arrange (.leftParen :: waiting) (itemsOf id xs ++ .operator .rightParen :: itemsOf id post) =
        (arrange waiting (itemsOf id post)).map (inner ++ ·) := arrange_group hinner waiting _
    rw [hpre, hpre, arrange, arrange, hclose]
    cases arrange waiting (itemsOf id post) with
    | error side => exact .inl ⟨side, rfl, rfl⟩
    | ok rest =>
      refine .inr ⟨out.map (Item.expr id), rest.map (Item.expr id), ?_, ?_⟩
      · simp [Except.map, Item.expr]
      · simp [Except.map]

/-! ## The stack -/

/-- operands that come to the same -/
def SameOutcomes (stack stack' : List Operand) : Prop :=
  List.Forall₂ (fun a b => a.value.outcome = b.value.outcome) stack stack'

section

variable {stack stack' : List Operand}

theorem runStack_end_congr (h : SameOutcomes stack stack') :
    (runStack stack []).outcome = (runStack stack' []).outcome := by
  cases h with
  | nil => rfl
  | cons ha h =>
    cases h with
    | nil => exact ha
    | cons _ _ => rfl

/-- **What is read next decides.** If two ways to go on have one outcome on all stacks of operands that come to the
same, then so they have behind any items. -/
theorem runStack_congr {xs ys : List (Item Operand)}
    (h : ∀ {stack stack'}, SameOutcomes stack stack' → (runStack stack xs).outcome = (runStack stack' ys).outcome)
    (items : List (Item Operand)) (hstack : SameOutcomes stack stack') :
    (runStack stack (items ++ xs)).outcome = (runStack stack' (items ++ ys)).outcome := by
  induction items generalizing stack stack' with
  | nil => exact h hstack
  | cons item items ih =>
    cases item with
    | operand a =>
      rw [List.cons_append, List.cons_append, runStack, runStack]
      exact ih (.cons rfl hstack)
    | operator op =>
      cases hstack with
      | nil => rfl
      | cons hb hstack =>
        cases hstack with
        | nil => rfl
        | @cons a a' stack stack' ha hstack =>
          have hrest : ∀ z, (runStack (⟨.number z, pure z⟩ :: stack) (items ++ xs)).outcome =
              (runStack (⟨.number z, pure z⟩ :: stack') (items ++ ys)).outcome := fun z => ih (.cons rfl hstack)
          simp only [List.cons_append, runStack_operator, ha, hb, hrest]

/-- Operands that come to the same are as good as each other. -/
theorem runStack_sameOutcomes (items : List (Item Operand)) (h : SameOutcomes stack stack') :
    (runStack stack items).outcome = (runStack stack' items).outcome := by
  have hcongr := @runStack_congr stack stack' [] [] runStack_end_congr items h
  rwa [List.append_nil] at hcongr

end

/-! ## Groups and nested sequences -/

/-- **A group is a nested sequence.** If a sequence has a value, then it stands for the group of its elements: whatever
stands in front of it and behind it, well-formed or not, both have the same value, or fail with the same fault. -/
theorem outcome_group {env : Environment} {xs : List Expr} {x : Binary64} (h : (Expr.sequence xs).outcome env = .ok x)
    (pre post : List Expr) :
    (Expr.sequence (pre ++ [.sequence xs] ++ post)).outcome env =
      (Expr.sequence (pre ++ [.operator .leftParen] ++ xs ++ [.operator .rightParen] ++ post)).outcome env := by
  obtain ⟨g, hg⟩ := exists_postorder_of_outcome h
  -- What is left of the tree of the group has the value of the nested sequence.
  obtain ⟨r, hreduce, hr⟩ := bind_eq_ok_iff.1 ((outcome_of_postorder hg env).symm.trans h)
  change g.reduce (fun e => (e.eval env).outcome) = .ok r at hreduce
  have hgroup : pre ++ [.operator .leftParen] ++ xs ++ [.operator .rightParen] ++ post =
      pre ++ .operator .leftParen :: (xs ++ .operator .rightParen :: post) := by simp
  rw [hgroup, List.append_assoc, List.singleton_append, Expr.outcome_sequence, Expr.outcome_sequence,
    outcome_evalSequence_eq, outcome_evalSequence_eq]
  rcases postfixElements_group hg (e := .sequence xs) rfl pre post with
    ⟨side, hnested, hwhole⟩ | ⟨before, after, hnested, hwhole⟩
  · rw [hnested, hwhole]
  · rw [hnested, hwhole]
    change (runStack [] _).outcome = (runStack [] _).outcome
    rw [itemsOf_append, itemsOf_append, itemsOf_append, itemsOf_cons_operand _ rfl]
    refine runStack_congr (fun {stack stack'} hstack => ?_) _ .nil
    calc (runStack stack (.operand ⟨.sequence xs, (Expr.sequence xs).eval env⟩ :: itemsOf _ after)).outcome
        = (runStack (⟨.sequence xs, (Expr.sequence xs).eval env⟩ :: stack) (itemsOf _ after)).outcome := by rw [runStack]
      _ = (runStack (r.onStack (Expr.eval env) :: stack') (itemsOf _ after)).outcome :=
        runStack_sameOutcomes _ (.cons (h.trans (hr.symm.trans r.outcome_onStack.symm)) hstack)
      _ = (runStack stack' (itemsOf _ g.postorder ++ itemsOf _ after)).outcome := by
        rw [runStack_itemsOf, hreduce]
        rfl

/-- `1 + 2` -/
def innerSum : List Expr := [.number (.ofNat 1), .operator .add, .number (.ofNat 2)]

/-- A group of which the product stands behind both its operands: a malformed sequence that has a value, the same with
the group as with a nested sequence. -/
theorem outcome_group_postfixProduct :
    (Expr.sequence innerSum).outcome {} = .ok (.ofNat 3) ∧
      (Expr.sequence ([.number (.ofNat 4)] ++ [.sequence innerSum] ++ [.operator .multiply])).outcome {} =
        .ok (.ofNat 12) ∧
      (Expr.sequence ([.number (.ofNat 4)] ++ [.operator .leftParen] ++ innerSum ++ [.operator .rightParen] ++
        [.operator .multiply])).outcome {} = .ok (.ofNat 12) := by
  have hinner : (Expr.sequence innerSum).outcome {} = .ok (.ofNat 3) := by decide +kernel
  have hnested : (Expr.sequence ([.number (.ofNat 4)] ++ [.sequence innerSum] ++ [.operator .multiply])).outcome {} =
      .ok (.ofNat 12) := by decide +kernel
  exact ⟨hinner, hnested, (outcome_group hinner _ _).symm.trans hnested⟩

end Calculator
