/-
Respaced lines.

The tokens of a line are written again with other blanks between them. Blanks may be put where none were; taken away
they may be only where the line had none either, so that no two tokens run together that were apart. What is written
has the same tokens, at other places.

The induction goes over the tokens that are left. It carries what is needed at the token in front of them: the text
that is written from there on looks like that of the line (`Lookalike`), so that the token is read as it was.

- `Respaced.lexed`: a text that is written again is read as the same lexemes, and looks like the old one;
- `tokens_respaced`: so is the whole line.
-/
import Calculator.Proofs.Token.Lookahead
import Calculator.Proofs.Token.Slices

namespace Calculator

/-- `Respaced line ts text`: the text is made of what stands on the line in the spans of the tokens, one after another
and each with blanks behind it, which may be missing in front of a token that follows at once on the line. -/
inductive Respaced (line : Text) : List Token → Text → Prop where
  | nil : Respaced line [] []
  | cons {t : Token} {ts : List Token} {blanks text : Text} (hblanks : ∀ c ∈ blanks, isBlank c)
      (happart : blanks = [] → ∀ u ∈ ts.head?, t.span.stop = u.span.start) (htext : Respaced line ts text) :
      Respaced line (t :: ts) (t.span.text line ++ (blanks ++ text))

namespace Lexer

section

variable {position : Nat} {afterOperand : Bool} {text : Text} {ts : List Token}

theorem Lexed.blanks {blanks : Text} (hblanks : ∀ c ∈ blanks, isBlank c)
    (h : Lexed (position + blanks.length) afterOperand text ts) : Lexed position afterOperand (blanks ++ text) ts := by
  induction blanks generalizing position with
  | nil => exact h
  | cons c blanks ih =>
    obtain ⟨hc, hblanks⟩ := List.forall_mem_cons.1 hblanks
    refine .blank hc (ih hblanks ?_)
    rwa [List.length_cons, Nat.add_comm blanks.length, ← Nat.add_assoc] at h

/-- The first token begins behind a stretch without tokens. -/
theorem Lexed.toFirst (h : Lexed position afterOperand text ts) :
    ∃ front rest, text = front ++ rest ∧ Lexed (position + front.length) afterOperand rest ts ∧
      ∀ t ∈ ts.head?, t.span.start = position + front.length := by
  cases ts with
  | nil => exact ⟨text, [], (List.append_nil text).symm, .nil _ _, by simp⟩
  | cons t ts =>
    obtain ⟨front, rest, htext, hstart, hrest⟩ := h.skip
    rw [hstart] at hrest
    refine ⟨front, rest, htext, hrest, fun u hu => ?_⟩
    cases hu
    exact hstart

/-- A token that begins where its text does is read there. -/
theorem Lexed.first {t : Token} (h : Lexed position afterOperand text (t :: ts)) (hstart : t.span.start = position) :
    ∃ w rest, text = w ++ rest ∧ t.span = ⟨position, position + w.length⟩ ∧ Reads afterOperand w rest t.lexeme ∧
      Lexed (position + w.length) t.lexeme.endsOperand rest ts := by
  cases h with
  | blank hc hrest =>
    have hbehind := (hrest.span_bounds List.mem_cons_self).1
    rw [hstart] at hbehind
    exact absurd hbehind (Nat.not_succ_le_self position)
  | token hread hrest => exact ⟨_, _, rfl, rfl, hread, hrest⟩

end

end Lexer

open Lexer

/-- What is written again looks like what it is written from, and is read as the same lexemes. -/
theorem Respaced.lexed {line : Text} {ts : List Token} {text' : Text} (h : Respaced line ts text') {front text : Text}
    {afterOperand : Bool} (hline : line = front ++ text) (hlexed : Lexed front.length afterOperand text ts)
    (hstart : ∀ t ∈ ts.head?, t.span.start = front.length) :
    Lookalike text text' ∧ ∀ position, ∃ us, Lexed position afterOperand text' us ∧
      us.map (·.lexeme) = ts.map (·.lexeme) := by
  induction h generalizing front text afterOperand with
  | nil => exact ⟨lookalike_of_blank (by simp), fun position => ⟨[], .nil position afterOperand, rfl⟩⟩
  | @cons t ts blanks text' hblanks happart htext ih =>
    obtain ⟨w, rest, rfl, hspan, hread, hrest⟩ := hlexed.first (hstart t rfl)
    have hw : t.span.text line = w := by
      simp [hline, hspan, Span.text, Span.length]
    obtain ⟨gap, behind, rfl, hbehind, hnext⟩ := hrest.toFirst
    rw [Nat.add_assoc, ← List.length_append, ← List.length_append] at hbehind hnext
    obtain ⟨halike, htokens⟩ := ih (by simp [hline]) hbehind hnext
    have halike' : Lookalike (gap ++ behind) (blanks ++ text') := by
      cases blanks with
      | cons c blanks => exact lookalike_of_blank fun d hd => hblanks d (List.mem_of_head? hd)
      | nil =>
        cases htext with
        | nil => exact lookalike_of_blank (by simp)
        | @cons u =>
          -- Blanks are missing only where the line has none, so the next token begins at once.
          have hgap : gap.length = 0 := by
            have hadjacent := (happart rfl u rfl).trans (hnext u rfl)
            simp only [hspan, List.length_append] at hadjacent
            omega
          rw [List.length_eq_zero_iff.1 hgap]
          exact halike
    have hread' := hread.congr halike'
    rw [hw]
    refine ⟨hread.lookalike hread', fun position => ?_⟩
    obtain ⟨us, hus, hlexemes⟩ := htokens (position + w.length + blanks.length)
    exact ⟨_, .token hread' (hus.blanks hblanks), by simp [hlexemes]⟩

/-- **Respacing.** A line that is written again with other blanks between its tokens, at its beginning and at its end
has the same lexemes, if tokens that were apart stay so. -/
theorem tokens_respaced {line before text : Text} {ts : List Token} {span : Span}
    (hline : tokens line = ts ++ [⟨.endOfInput, span⟩]) (hbefore : ∀ c ∈ before, isBlank c)
    (htext : Respaced line ts text) :
    (tokens (before ++ text)).map (·.lexeme) = (tokens line).map (·.lexeme) := by
  obtain ⟨us, hlexed, htokens⟩ := exists_lexed_tokens line
  obtain ⟨rfl, -⟩ := List.append_inj' (htokens.symm.trans hline) rfl
  obtain ⟨front, rest, hrest, hlexed', hstart⟩ := hlexed.toFirst
  rw [Nat.zero_add] at hlexed' hstart
  obtain ⟨-, hread⟩ := htext.lexed hrest hlexed' hstart
  obtain ⟨vs, hvs, hlexemes⟩ := hread (0 + before.length)
  rw [tokens, (hvs.blanks hbefore).tokensFrom_eq, htokens, List.map_append, List.map_append, hlexemes]
  rfl

def minusLine : Text := "3-1 *-.5".toList

def minusTokens : List Token :=
  [⟨.number (Radix.decimal.value ['3'] []) .decimal, ⟨0, 1⟩⟩, ⟨.operator .subtract, ⟨1, 2⟩⟩,
    ⟨.number (Radix.decimal.value ['1'] []) .decimal, ⟨2, 3⟩⟩, ⟨.operator .multiply, ⟨4, 5⟩⟩,
    ⟨.number (-Radix.decimal.value [] ['5']) .decimal, ⟨5, 8⟩⟩]

/-- A blank in front of a minus makes no sign of it, and one behind an operator takes none away. -/
theorem tokens_respaced_minusLine :
    tokens minusLine = minusTokens ++ [⟨.endOfInput, ⟨8, 9⟩⟩] ∧ (∀ c ∈ ['\t'], isBlank c) ∧
      Respaced minusLine minusTokens "3 -1\t*\u3000-.5 ".toList ∧
      (tokens (['\t'] ++ "3 -1\t*\u3000-.5 ".toList)).map (·.lexeme) = (tokens minusLine).map (·.lexeme) := by
  have htokens : tokens minusLine = minusTokens ++ [⟨.endOfInput, ⟨8, 9⟩⟩] := by decide +kernel
  have hbefore : ∀ c ∈ ['\t'], isBlank c := List.forall_mem_singleton.2 (by decide)
  have htext : Respaced minusLine minusTokens "3 -1\t*\u3000-.5 ".toList := by
    refine @Respaced.cons _ _ _ [' '] _ (List.forall_mem_singleton.2 (by decide)) (by simp) ?_
    refine @Respaced.cons _ _ _ [] _ (by simp) (by simp) ?_
    refine @Respaced.cons _ _ _ ['\t'] _ (List.forall_mem_singleton.2 (by decide)) (by simp) ?_
    refine @Respaced.cons _ _ _ ['\u3000'] _ (List.forall_mem_singleton.2 (by decide)) (by simp) ?_
    exact @Respaced.cons _ _ _ [' '] _ (List.forall_mem_singleton.2 (by decide)) (by simp) .nil
  exact ⟨htokens, hbefore, htext, tokens_respaced htokens hbefore htext⟩

end Calculator
