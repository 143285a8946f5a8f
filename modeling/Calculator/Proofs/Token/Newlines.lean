/-
Newlines as spaces.

A newline is a token of its own. With spaces for its newlines a line has its other tokens still, where they were. Only a
minus is read otherwise: behind a newline it is the sign of a number, even if an operand stands in front of the newline,
and behind a space it is not. `unbroken` says what becomes of the tokens of a line.

- `Reads.spaced_rest`: a token ends in front of a newline as it does in front of a space;
- `Reads.behind`: behind an operand a token is read as elsewhere, or it is a number with a sign, and becomes two;
- `tokens_spaced`: the tokens of a line with spaces for its newlines.
-/
import Calculator.Proofs.Token.Slices

namespace Calculator

/-- a line with spaces for its newlines -/
def spaced (line : Text) : Text := line.map fun c => if c = '\n' then ' ' else c

theorem spaced_append (front rest : Text) : spaced (front ++ rest) = spaced front ++ spaced rest := List.map_append

theorem length_spaced (line : Text) : (spaced line).length = line.length := List.length_map _

theorem spaced_eq_self {text : Text} (h : '\n' ∉ text) : spaced text = text := by
  refine (List.map_congr_left fun c hc => if_neg ?_).trans (List.map_id text)
  rintro rfl
  exact h hc

/-! ## Literals below zero -/

namespace Binary64

theorem ofUnits_ne_nan (negative : Bool) (units : Nat) : ofUnits negative units ≠ nan := by
  unfold ofUnits
  split <;> simp

theorem ofRatio_ne_nan (negative : Bool) (num den : Nat) : ofRatio negative num den ≠ nan := by
  rw [ofRatio, roundedUnits]
  exact ofUnits_ne_nan _ _

/-- Only infinities of both signs have no sum. -/
theorem add_ne_nan {a b : Binary64} (ha : a ≠ nan) (hb : b ≠ nan) (hsign : a.isNegative = b.isNegative) :
    a + b ≠ nan := by
  change add a b ≠ nan
  cases a with
  | nan => exact absurd rfl ha
  | infinite s =>
    cases b with
    | nan => exact absurd rfl hb
    | infinite t =>
      obtain rfl : s = t := hsign
      simp [add]
    | finite t v hv => simp [add]
  | finite s u hu =>
    cases b with
    | nan => exact absurd rfl hb
    | infinite t => simp [add]
    | finite t v hv =>
      rw [add, roundedUnits]
      exact ofUnits_ne_nan _ _

theorem isNegative_neg {x : Binary64} (h : x ≠ nan) : (-x).isNegative = !x.isNegative := by
  cases x with
  | nan => exact absurd rfl h
  | infinite s => rfl
  | finite s u hu => rfl

theorem neg_neg (x : Binary64) : - -x = x := by
  change neg (neg x) = x
  cases x <;> simp [neg]

end Binary64

theorem Radix.value_ne_nan (radix : Radix) (whole fraction : Text) : radix.value whole fraction ≠ .nan := by
  unfold value
  split
  · exact Binary64.ofRatio_ne_nan _ _ _
  · refine Binary64.add_ne_nan (Binary64.ofRatio_ne_nan _ _ _) (Binary64.ofRatio_ne_nan _ _ _) ?_
    exact (Binary64.isNegative_ofRatio ..).trans (Binary64.isNegative_ofRatio ..).symm

/-- A literal with a sign is below zero, or the negative zero. -/
theorem Lexer.Literal.isNegative_neg_value (l : Literal) : (-l.value).isNegative = true := by
  rw [value, Binary64.isNegative_neg (l.radix.value_ne_nan _ _), l.radix.isNegative_value]
  rfl

namespace Lexeme

/-- a number with a sign -/
def isSigned : Lexeme → Bool
  | number value _ => value.isNegative
  | _ => false

theorem isSigned_iff {l : Lexeme} :
    l.isSigned = true ↔ ∃ value radix, l = .number value radix ∧ value.isNegative = true := by
  cases l <;> simp [isSigned]

theorem isSigned_eq_false_iff {l : Lexeme} :
    l.isSigned = false ↔ ∀ value radix, l = .number value radix → value.isNegative = false := by
  cases l <;> simp [isSigned]

end Lexeme

namespace Lexer

/-! ## Tokens in front of a newline -/

theorem IsNameText.newline_notMem {text : Text} (h : IsNameText text) : '\n' ∉ text := by
  obtain ⟨c, cs, rfl, hc, hcs, -⟩ := h
  intro hmem
  rcases List.mem_cons.1 hmem with rfl | hmem
  · exact absurd hc (by decide)
  · exact absurd (hcs _ hmem) (by decide)

theorem Digits.newline_notMem {radix : Radix} {whole fraction w : Text} (h : Digits radix whole fraction w) :
    '\n' ∉ radix.mark ++ w := by
  intro hmem
  rcases List.mem_append.1 hmem with hmark | hw
  · cases radix <;> exact absurd hmark (by decide)
  · rcases h.isDigit_or_point hw with hdigit | hpoint
    · exact absurd (isNamePart_of_isDigit hdigit) (by decide)
    · exact absurd hpoint (by decide)

/-- No token has a newline in it, but the newline. -/
theorem Spelling.newline_notMem {w : Text} {l : Lexeme} (h : Spelling w l) (hl : l ≠ .newline) : '\n' ∉ w := by
  cases h with
  | literal h => exact h.newline_notMem
  | signed h => simpa using h.newline_notMem
  | keyword => decide
  | name h => exact h.newline_notMem
  | newline => exact absurd rfl hl
  | operator op => cases op <;> decide
  | punctuation mark => cases mark <;> decide
  | @mark radix _ => cases radix <;> decide
  | stray h => simpa using h.not_newline.symm

/-- A text and the same with spaces go apart where tokens are broken off. -/
theorem exists_breaks_spaced (text : Text) :
    ∃ front rest rest', text = front ++ rest ∧ spaced text = front ++ rest' ∧ Breaks rest ∧ Breaks rest' := by
  induction text with
  | nil => exact ⟨[], [], [], rfl, rfl, breaks_nil, breaks_nil⟩
  | cons c text ih =>
    by_cases hc : c = '\n'
    · subst hc
      exact ⟨[], _, _, rfl, rfl, by simp [Breaks]; decide, by simp [Breaks]; decide⟩
    · obtain ⟨front, rest, rest', htext, hspaced, hbreaks⟩ := ih
      refine ⟨c :: front, rest, rest', by rw [htext]; rfl, ?_, hbreaks⟩
      rw [List.cons_append, ← hspaced]
      exact congrArg (· :: spaced text) (if_neg hc)

/-- A token ends in front of a newline as it does in front of a space. -/
theorem Reads.spaced_rest {afterOperand : Bool} {w rest : Text} {l : Lexeme} (h : Reads afterOperand w rest l) :
    Reads afterOperand w (spaced rest) l := by
  obtain ⟨c, cs, rfl, hc, hscan⟩ := h
  obtain ⟨front, behind, behind', rfl, hspaced, hbreaks, hbreaks'⟩ := exists_breaks_spaced rest
  refine ⟨c, cs, rfl, hc, ?_⟩
  rw [← List.append_assoc, scan_append hbreaks] at hscan
  rw [hspaced, ← List.append_assoc, scan_append hbreaks', hscan]

/-- A literal is read as it stands, behind whatever. -/
theorem reads_literal {w rest : Text} {m : Literal} (h : literal? (w ++ rest) = some m) (hlength : m.length = w.length)
    (afterOperand : Bool) : Reads afterOperand w rest (.number m.value m.radix) := by
  obtain ⟨v, others, htext, hv, hdigits⟩ := literal?_sound h
  obtain ⟨rfl, rfl⟩ := List.append_inj htext (hlength.symm.trans hv.symm)
  obtain ⟨c, cs, hw⟩ := List.exists_cons_of_length_pos (hlength ▸ (literal?_length h).1)
  have hc : isBlank c = false := (Spelling.literal hdigits).not_isBlank c (hw ▸ List.mem_cons_self)
  rw [hw] at h hlength ⊢
  refine ⟨c, cs, rfl, hc, ?_⟩
  rw [scan, ← List.cons_append, h]
  exact congrArg (Prod.mk _) (congrArg (· - 1) hlength)

theorem Reads.isSigned {w rest : Text} {l : Lexeme} (h : Reads true w rest l) : l.isSigned = false := by
  obtain ⟨c, cs, -, -, hscan⟩ := h
  have hscanned := scanned true c (cs ++ rest)
  rw [hscan] at hscanned
  rw [Lexeme.isSigned_eq_false_iff]
  rintro value radix rfl
  exact hscanned.isNegative

theorem Reads.eq_newline {afterOperand : Bool} {w rest : Text} (h : Reads afterOperand w rest .newline) :
    w = ['\n'] := by
  have hspelling : Spelling w .newline := h.spelling
  cases hspelling
  rfl

/-- **Behind an operand** a token is read as elsewhere, or it is a literal with a sign, which is no part of it there. -/
theorem Reads.behind {w rest : Text} {l : Lexeme} {afterOperand afterOperand' : Bool}
    (h : Reads afterOperand w rest l) (hafter : afterOperand = true → afterOperand' = true) :
    Reads afterOperand' w rest l ∨ afterOperand' = true ∧ ∃ (v : Text) (m : Literal), w = '-' :: v ∧
      l = .number (-m.value) m.radix ∧ Reads true ['-'] (v ++ rest) (.operator .subtract) ∧
      Reads false v rest (.number m.value m.radix) := by
  by_cases hsame : afterOperand = afterOperand'
  · exact .inl (hsame ▸ h)
  obtain ⟨rfl, rfl⟩ : afterOperand = false ∧ afterOperand' = true := by
    cases afterOperand <;> cases afterOperand' <;> simp_all
  obtain ⟨c, cs, rfl, hc, hscan⟩ := h
  unfold scan at hscan
  split at hscan
  · rename_i m hm
    refine .inl ⟨c, cs, rfl, hc, ?_⟩
    rw [scan, hm]
    exact hscan
  · rename_i hnone
    split at hscan
    · rename_i hstart
      refine .inl ⟨c, cs, rfl, hc, ?_⟩
      rw [scan, hnone, if_pos hstart]
      exact hscan
    · rename_i hstart
      have hsymbol : scan true c (cs ++ rest) = symbol c (cs ++ rest) := by
        rw [scan, hnone, if_neg hstart, if_neg (by simp)]
      split at hscan
      · rename_i hsign
        split at hscan
        · rename_i m hm
          obtain ⟨rfl, hlength⟩ := Prod.mk.inj hscan
          refine .inr ⟨rfl, cs, m, by rw [hsign.1], rfl, ?_, reads_literal hm hlength false⟩
          exact reads_symbol rfl (by simp) (by simp)
        · exact .inl ⟨c, cs, rfl, hc, hsymbol.trans hscan⟩
      · exact .inl ⟨c, cs, rfl, hc, hsymbol.trans hscan⟩

/-! ## Tokens of a line -/

/-- The tokens of a line without its newlines: where a number below zero stands behind an operand then, its sign is a
subtraction. -/
def unbroken : Bool → List Token → List Token
  | _, [] => []
  | afterOperand, t :: ts =>
    match t.lexeme with
    | .newline => unbroken afterOperand ts
    | .number value radix =>
      if afterOperand && value.isNegative then
        ⟨.operator .subtract, ⟨t.span.start, t.span.start + 1⟩⟩ ::
          ⟨.number (-value) radix, ⟨t.span.start + 1, t.span.stop⟩⟩ :: unbroken true ts
      else t :: unbroken true ts
    | l => t :: unbroken l.endsOperand ts

section

variable {afterOperand : Bool} {t : Token} {ts : List Token}

theorem unbroken_newline (h : t.lexeme = .newline) : unbroken afterOperand (t :: ts) = unbroken afterOperand ts := by
  rw [unbroken, h]

theorem unbroken_sign {value : Binary64} {radix : Radix} (h : t.lexeme = .number value radix)
    (hnegative : value.isNegative = true) :
    unbroken true (t :: ts) = ⟨.operator .subtract, ⟨t.span.start, t.span.start + 1⟩⟩ ::
      ⟨.number (-value) radix, ⟨t.span.start + 1, t.span.stop⟩⟩ :: unbroken true ts := by
  rw [unbroken, h]
  simp [hnegative]

theorem unbroken_token (hnewline : t.lexeme ≠ .newline) (hsign : afterOperand = true → t.lexeme.isSigned = false) :
    unbroken afterOperand (t :: ts) = t :: unbroken t.lexeme.endsOperand ts := by
  rw [unbroken]
  split
  · rename_i h
    exact absurd h hnewline
  · rename_i value radix h
    rw [if_neg, h]
    · rfl
    · intro hnegative
      obtain ⟨hafter, hnegative⟩ := Bool.and_eq_true_iff.1 hnegative
      rw [Lexeme.isSigned_eq_false_iff.1 (hsign hafter) value radix h] at hnegative
      cases hnegative
  · rfl

theorem unbroken_concat_end (position : Nat) :
    unbroken afterOperand (ts ++ [endToken position]) = unbroken afterOperand ts ++ [endToken position] := by
  induction ts generalizing afterOperand with
  | nil => exact unbroken_token (by simp [endToken]) fun _ => rfl
  | cons t ts ih =>
    rw [List.cons_append, unbroken.eq_def, unbroken.eq_def _ (t :: ts)]
    simp only [ih]
    split
    · rfl
    · split <;> rfl
    · rfl

/-- Tokens are read behind what stands in front of the newlines before them, as with spaces for these. -/
theorem Lexed.spaced_text {position : Nat} {text : Text} (h : Lexed position afterOperand text ts)
    {afterOperand' : Bool} (hafter : afterOperand = true → afterOperand' = true) :
    Lexed position afterOperand' (spaced text) (unbroken afterOperand' ts) := by
  induction h generalizing afterOperand' with
  | nil => exact .nil _ _
  | @blank position afterOperand c rest ts hc _ ih =>
    have hspace : spaced [c] = [c] := spaced_eq_self fun hmem => by
      rw [← List.mem_singleton.1 hmem] at hc
      cases hc
    rw [← List.singleton_append, spaced_append, hspace]
    exact .blank hc (ih hafter)
  | @token position afterOperand w rest l ts hread hrest ih =>
    rw [spaced_append]
    by_cases hl : l = .newline
    · -- No operand ends with the newline, but with a space in its place one still may end before it.
      subst hl
      obtain rfl := hread.eq_newline
      rw [unbroken_newline rfl]
      exact .blank (by decide) (ih (by simp [Lexeme.endsOperand]))
    rw [spaced_eq_self (hread.spelling.newline_notMem hl)]
    rcases hread.spaced_rest.behind hafter with hread' | ⟨rfl, v, m, rfl, rfl, hminus, hnumber⟩
    · rw [unbroken_token hl]
      · exact .token hread' (ih id)
      · rintro rfl
        exact hread'.isSigned
    · rw [unbroken_sign rfl m.isNegative_neg_value, Binary64.neg_neg, List.cons_append, ← List.singleton_append]
      have hrest' : Lexed (position + 1 + v.length) true (spaced rest) (unbroken true ts) := by
        have hbehind := @ih true fun _ => rfl
        rwa [List.length_cons, Nat.add_comm v.length, ← Nat.add_assoc] at hbehind
      have hlexed := Lexed.token hminus (.token hnumber hrest')
      rw [List.length_cons, Nat.add_comm v.length, ← Nat.add_assoc]
      exact hlexed

end

end Lexer

open Lexer in
/-- **The tokens of a line with spaces for its newlines.** -/
theorem tokens_spaced (line : Text) : tokens (spaced line) = unbroken false (tokens line) := by
  obtain ⟨ts, hlexed, htokens⟩ := exists_lexed_tokens line
  have hspaced : Lexed 0 false (spaced line) (unbroken false ts) := hlexed.spaced_text id
  rw [tokens, hspaced.tokensFrom_eq, htokens, length_spaced, unbroken_concat_end, Nat.zero_add]

end Calculator
