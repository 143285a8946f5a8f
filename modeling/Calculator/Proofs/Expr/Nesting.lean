/-
The parentheses that are open in a list of tokens.

They are a stack of positions, the innermost first. An opening parenthesis goes on it, whether it belongs to a call or
not; a closing one takes the innermost off, and is ignored when nothing is open. A closing parenthesis matches the
opening one that it takes off.

- `isParen_of_mem_openParens`, `nodup_openParens`: the stack holds positions of opening parentheses, each once;
- `exists_matches_iff`: a parenthesis has a match exactly when it is not open at the end.
-/
import Calculator.Token
import Mathlib.Data.List.Induction

namespace Calculator

/-- what stands at a position of a list of tokens -/
def lexemeAt (ts : List Token) (i : Nat) : Option Lexeme := (ts[i]?).map (·.lexeme)

/-- the open parentheses behind a lexeme, which goes on the stack as `mark` if it opens one -/
def openStep {α : Type} (opened : List α) (mark : α) : Lexeme → List α
  | .operator .leftParen => mark :: opened
  | .operator .rightParen => opened.tail
  | _ => opened

/-- the open parentheses behind tokens that start at a position -/
def openFrom (opened : List Nat) (position : Nat) : List Token → List Nat
  | [] => opened
  | t :: ts => openFrom (openStep opened position t.lexeme) (position + 1) ts

/-- the open parentheses behind some tokens, by their positions, the innermost first -/
def openParens (ts : List Token) : List Nat := openFrom [] 0 ts

/-- the closing parenthesis at `j` matches the opening one at `i` -/
def Matches (ts : List Token) (i j : Nat) : Prop :=
  lexemeAt ts j = some (.operator .rightParen) ∧ (openParens (ts.take j)).head? = some i

/-- a position right behind a name -/
def AfterName (ts : List Token) (i : Nat) : Prop := ∃ k name, i = k + 1 ∧ lexemeAt ts k = some (.name name)

/-- an opening parenthesis right behind a name, which makes it a call -/
def CallParen (ts : List Token) (i : Nat) : Prop := lexemeAt ts i = some (.operator .leftParen) ∧ AfterName ts i

/-- the innermost parenthesis that is open at a position belongs to a call -/
def InsideCall (ts : List Token) (i : Nat) : Prop := ∃ j, (openParens (ts.take i)).head? = some j ∧ CallParen ts j

section

variable {ts : List Token} {i j : Nat}

theorem lexemeAt_append_left (us : List Token) (h : i < ts.length) : lexemeAt (ts ++ us) i = lexemeAt ts i := by
  rw [lexemeAt, List.getElem?_append_left h, lexemeAt]

theorem lexemeAt_length (t : Token) (us : List Token) : lexemeAt (ts ++ t :: us) ts.length = some t.lexeme := by
  simp [lexemeAt]

theorem lt_of_lexemeAt {l : Lexeme} (h : lexemeAt ts i = some l) : i < ts.length := by
  obtain ⟨t, ht, -⟩ := Option.map_eq_some_iff.1 h
  exact (List.getElem?_eq_some_iff.1 ht).1

theorem openFrom_append (opened : List Nat) (position : Nat) (us : List Token) :
    openFrom opened position (ts ++ us) = openFrom (openFrom opened position ts) (position + ts.length) us := by
  induction ts generalizing opened position with
  | nil => rfl
  | cons t ts ih =>
    rw [List.cons_append, openFrom, ih, openFrom, List.length_cons, Nat.add_assoc, Nat.add_comm 1]

theorem openParens_snoc (t : Token) : openParens (ts ++ [t]) = openStep (openParens ts) ts.length t.lexeme := by
  rw [openParens, openFrom_append, Nat.zero_add]
  rfl

/-! ## What is open -/

theorem mem_openStep {α : Type} {opened : List α} {mark a : α} {l : Lexeme} (h : a ∈ openStep opened mark l) :
    a ∈ opened ∨ a = mark ∧ l = .operator .leftParen := by
  unfold openStep at h
  split at h
  · rcases List.mem_cons.1 h with rfl | h
    · exact .inr ⟨rfl, rfl⟩
    · exact .inl h
  · exact .inl (List.mem_of_mem_tail h)
  · exact .inl h

theorem isParen_of_mem_openParens (h : i ∈ openParens ts) : lexemeAt ts i = some (.operator .leftParen) := by
  induction ts using List.reverseRecOn with
  | nil => cases h
  | append_singleton ts t ih =>
    rw [openParens_snoc] at h
    rcases mem_openStep h with h | ⟨rfl, ht⟩
    · rw [lexemeAt_append_left _ (lt_of_lexemeAt (ih h))]
      exact ih h
    · rw [lexemeAt_length, ht]

theorem lt_of_mem_openParens (h : i ∈ openParens ts) : i < ts.length := lt_of_lexemeAt (isParen_of_mem_openParens h)

theorem nodup_openParens : (openParens ts).Nodup := by
  induction ts using List.reverseRecOn with
  | nil => exact List.nodup_nil
  | append_singleton ts t ih =>
    rw [openParens_snoc]
    unfold openStep
    split
    · exact List.nodup_cons.2 ⟨fun h => Nat.lt_irrefl _ (lt_of_mem_openParens h), ih⟩
    · exact ih.sublist (List.tail_sublist _)
    · exact ih

/-- A token takes off the innermost open parenthesis, if it closes one, and no other. -/
theorem mem_openStep_iff {opened : List Nat} (hnodup : opened.Nodup) {position : Nat} (hne : i ≠ position)
    {l : Lexeme} :
    i ∈ openStep opened position l ↔ i ∈ opened ∧ ¬ (l = .operator .rightParen ∧ opened.head? = some i) := by
  unfold openStep
  split
  · simp [hne]
  · cases opened with
    | nil => simp
    | cons k others =>
      have hk := (List.nodup_cons.1 hnodup).1
      simp only [List.tail_cons, List.mem_cons, List.head?_cons, Option.some.injEq, true_and]
      constructor
      · exact fun hi => ⟨.inr hi, fun heq => hk (heq ▸ hi)⟩
      · intro h
        obtain ⟨hi, hother⟩ := h
        rcases hi with rfl | hi
        · exact absurd rfl hother
        · exact hi
  · rename_i hright
    simp only [iff_self_and]
    exact fun _ hclose => absurd hclose.1 hright

/-! ## Matches -/

/-- A token at the end matches the innermost open parenthesis, if it closes one. -/
theorem exists_matches_snoc (t : Token) :
    (∃ j, Matches (ts ++ [t]) i j) ↔
      (∃ j, Matches ts i j) ∨ t.lexeme = .operator .rightParen ∧ (openParens ts).head? = some i := by
  constructor
  · intro h
    obtain ⟨j, hclose, hhead⟩ := h
    have hj := lt_of_lexemeAt hclose
    rw [List.length_append, List.length_singleton] at hj
    rcases Nat.lt_or_eq_of_le (Nat.le_of_lt_succ hj) with hlt | rfl
    · rw [lexemeAt_append_left _ hlt] at hclose
      rw [List.take_append_of_le_length (Nat.le_of_lt hlt)] at hhead
      exact .inl ⟨j, hclose, hhead⟩
    · rw [lexemeAt_length] at hclose
      rw [List.take_left] at hhead
      exact .inr ⟨Option.some.inj hclose, hhead⟩
  · intro h
    rcases h with ⟨j, hclose, hhead⟩ | ⟨ht, hhead⟩
    · have hlt := lt_of_lexemeAt hclose
      refine ⟨j, ?_, ?_⟩
      · rw [lexemeAt_append_left _ hlt]; exact hclose
      · rw [List.take_append_of_le_length (Nat.le_of_lt hlt)]; exact hhead
    · refine ⟨ts.length, ?_, ?_⟩
      · rw [lexemeAt_length, ht]
      · rw [List.take_left]; exact hhead

theorem lt_of_matches (h : Matches ts i j) : i < j := by
  have hmem := lt_of_mem_openParens (List.mem_of_head? h.2)
  exact Nat.lt_of_lt_of_le hmem (List.length_take_le _ _)

/-- **Matched or open.** An opening parenthesis has a match exactly when it is not open behind all tokens. -/
theorem exists_matches_iff (h : lexemeAt ts i = some (.operator .leftParen)) :
    (∃ j, Matches ts i j) ↔ i ∉ openParens ts := by
  induction ts using List.reverseRecOn with
  | nil => cases h
  | append_singleton ts t ih =>
    rw [exists_matches_snoc, openParens_snoc]
    have hi := lt_of_lexemeAt h
    rw [List.length_append, List.length_singleton] at hi
    rcases Nat.lt_or_eq_of_le (Nat.le_of_lt_succ hi) with hlt | rfl
    · rw [lexemeAt_append_left _ hlt] at h
      rw [ih h, mem_openStep_iff nodup_openParens (Nat.ne_of_lt hlt), not_and_or, not_not]
    · rw [lexemeAt_length, Option.some.injEq] at h
      have hmatch : ¬ ∃ j, Matches ts ts.length j := by
        intro hmatch
        obtain ⟨j, hj⟩ := hmatch
        exact absurd (Nat.lt_trans (lt_of_matches hj) (lt_of_lexemeAt hj.1)) (Nat.lt_irrefl _)
      simp [hmatch, h, openStep]

end

end Calculator
