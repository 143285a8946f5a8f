/-
What the tokens of a line can be.

`Scanned` lists the tokens that can be read at a character. A literal has no sign of its own, so a number below zero is
only read where no operand ends before it.

- `scanned`: a token is one of these;
- `tokens_eq_append`: the end of input comes last, and nowhere else;
- `exists_scanned_of_mem_tokens`: every other token is read at a character of the line;
- `signsFit_tokens`: no number right behind an operand has a sign.
-/
import Calculator.Token.Lexer
import Mathlib.Data.List.TakeWhile

namespace Calculator

/-! ## Literals have no sign -/

namespace Binary64

theorem isNegative_ofUnits (negative : Bool) (units : Nat) : (ofUnits negative units).isNegative = negative := by
  unfold ofUnits
  split <;> rfl

theorem isNegative_ofRatio (negative : Bool) (num den : Nat) : (ofRatio negative num den).isNegative = negative := by
  rw [ofRatio, roundedUnits, isNegative_ofUnits]

theorem isNegative_add {a b : Binary64} (ha : a.isNegative = false) (hb : b.isNegative = false) :
    (a + b).isNegative = false := by
  change (add a b).isNegative = false
  cases a with
  | nan => rfl
  | infinite s =>
    cases ha
    cases b with
    | nan => rfl
    | infinite t => cases hb; rfl
    | finite t v hv => rfl
  | finite s u hu =>
    cases ha
    cases b with
    | nan => rfl
    | infinite t => cases hb; rfl
    | finite t v hv =>
      cases hb
      simp only [add, roundedUnits, isNegative_ofUnits]
      split
      · rfl
      · exact decide_eq_false (Int.not_lt.2 (Int.add_nonneg (Int.natCast_nonneg u) (Int.natCast_nonneg v)))

end Binary64

theorem Radix.isNegative_value (radix : Radix) (whole fraction : Text) :
    (radix.value whole fraction).isNegative = false := by
  unfold value
  split
  · exact Binary64.isNegative_ofRatio ..
  · exact Binary64.isNegative_add (Binary64.isNegative_ofRatio ..) (Binary64.isNegative_ofRatio ..)

namespace Lexer

/-! ## One token -/

/-- the texts that are read as names -/
def IsNameText (text : Text) : Prop :=
  ∃ c cs, text = c :: cs ∧ isNameStart c ∧ (∀ d ∈ cs, isNamePart d) ∧ String.ofList text ≠ "let"

/-- the tokens that can be read at a character -/
inductive Scanned (afterOperand : Bool) (c : Char) : Lexeme → Prop
  | literal (l : Literal) : Scanned afterOperand c (.number l.value l.radix)
  | signed (l : Literal) : afterOperand = false → Scanned afterOperand c (.number (-l.value) l.radix)
  | keyword : Scanned afterOperand c .letKeyword
  | name (text : Text) : IsNameText text → Scanned afterOperand c (.name (String.ofList text))
  | newline : c = '\n' → Scanned afterOperand c .newline
  | operator (op : Operator) : Scanned afterOperand c (.operator op)
  | punctuation (mark : Punctuation) : Scanned afterOperand c (.punctuation mark)
  | invalid (text : Text) : Scanned afterOperand c (.invalid text)

theorem scanned_word (afterOperand : Bool) {c : Char} (hc : isNameStart c) (rest : Text) :
    Scanned afterOperand c (word c rest).1 := by
  unfold word
  simp only
  split
  · exact .keyword
  · rename_i hlet
    exact .name _ ⟨c, _, rfl, hc, fun d hd => List.mem_takeWhile_imp hd, hlet⟩

theorem scanned_symbol (afterOperand : Bool) (c : Char) (rest : Text) : Scanned afterOperand c (symbol c rest).1 := by
  unfold symbol
  split
  · exact .operator .exponent
  · exact .invalid _
  · exact .invalid _
  · unfold symbol?
    split
    case h_16 => exact .newline rfl
    case h_17 => exact .invalid _
    all_goals first | exact .operator _ | exact .punctuation _

/-- What is read at a character is one of the tokens that can be. -/
theorem scanned (afterOperand : Bool) (c : Char) (rest : Text) : Scanned afterOperand c (scan afterOperand c rest).1 := by
  unfold scan
  split
  · rename_i l _; exact .literal l
  · split
    · rename_i hc; exact scanned_word afterOperand hc rest
    · split
      · rename_i hsign
        split
        · rename_i l _; exact .signed l hsign.2
        · exact scanned_symbol ..
      · exact scanned_symbol ..

theorem Scanned.ne_endOfInput {afterOperand : Bool} {c : Char} {l : Lexeme} (h : Scanned afterOperand c l) :
    l ≠ .endOfInput := by
  cases h <;> simp

/-- Behind an operand, no number below zero is read. -/
theorem Scanned.isNegative {c : Char} {value : Binary64} {radix : Radix} (h : Scanned true c (.number value radix)) :
    value.isNegative = false := by
  cases h with
  | literal l => exact l.radix.isNegative_value ..
  | signed l hafter => cases hafter

/-! ## All tokens -/

theorem tokensFrom_nil (position : Nat) (afterOperand : Bool) :
    tokensFrom position afterOperand [] = [⟨.endOfInput, ⟨position, position + 1⟩⟩] := by
  rw [tokensFrom.eq_def]

theorem tokensFrom_blank (position : Nat) (afterOperand : Bool) {c : Char} (h : isBlank c) (rest : Text) :
    tokensFrom position afterOperand (c :: rest) = tokensFrom (position + 1) afterOperand rest := by
  rw [tokensFrom.eq_def]
  simp only [h, if_true]

theorem tokensFrom_scan (position : Nat) {afterOperand : Bool} {c : Char} (h : isBlank c = false) {rest : Text}
    {l : Lexeme} {more : Nat} (hscan : scan afterOperand c rest = (l, more)) :
    tokensFrom position afterOperand (c :: rest) =
      ⟨l, ⟨position, position + 1 + more⟩⟩ :: tokensFrom (position + 1 + more) l.endsOperand (rest.drop more) := by
  rw [tokensFrom.eq_def]
  simp only [h, hscan, Bool.false_eq_true, if_false]

/-- The end of input comes last, and nowhere else. -/
theorem tokensFrom_eq_append (position : Nat) (afterOperand : Bool) (text : Text) :
    ∃ ts span, tokensFrom position afterOperand text = ts ++ [⟨.endOfInput, span⟩] ∧
      ∀ t ∈ ts, t.lexeme ≠ .endOfInput := by
  fun_induction tokensFrom position afterOperand text with
  | case1 position => exact ⟨[], _, rfl, by simp⟩
  | case2 position afterOperand c rest _ ih => exact ih
  | case3 position afterOperand c rest _ lexeme more hscan stop ih =>
    obtain ⟨ts, span, heq, hts⟩ := ih
    have hlexeme := (scanned afterOperand c rest).ne_endOfInput
    rw [hscan] at hlexeme
    exact ⟨_ :: ts, span, by rw [heq]; rfl, List.forall_mem_cons.2 ⟨hlexeme, hts⟩⟩

theorem exists_scanned_of_mem_tokensFrom {position : Nat} {afterOperand : Bool} {text : Text} {t : Token}
    (h : t ∈ tokensFrom position afterOperand text) (hend : t.lexeme ≠ .endOfInput) :
    ∃ afterOperand', ∃ c ∈ text, Scanned afterOperand' c t.lexeme := by
  fun_induction tokensFrom position afterOperand text with
  | case1 position =>
    obtain rfl := List.mem_singleton.1 h
    exact absurd rfl hend
  | case2 position afterOperand c rest _ ih =>
    obtain ⟨b, d, hd, hscan⟩ := ih h
    exact ⟨b, d, List.mem_cons_of_mem _ hd, hscan⟩
  | case3 position afterOperand c rest _ lexeme more hscan stop ih =>
    rcases List.mem_cons.1 h with rfl | h
    · have hscanned := scanned afterOperand c rest
      rw [hscan] at hscanned
      exact ⟨afterOperand, c, List.mem_cons_self, hscanned⟩
    · obtain ⟨b, d, hd, hscan⟩ := ih h
      exact ⟨b, d, List.mem_cons_of_mem _ (List.mem_of_mem_drop hd), hscan⟩

/-- no number right behind an operand is below zero -/
def SignsFit : Bool → List Lexeme → Prop
  | _, [] => True
  | afterOperand, l :: ls =>
    (afterOperand = true → ∀ value radix, l = .number value radix → value.isNegative = false) ∧ SignsFit l.endsOperand ls

/-- What is read behind an operand as a number has no sign. -/
theorem signsFit_tokensFrom (position : Nat) (afterOperand : Bool) (text : Text) :
    SignsFit afterOperand ((tokensFrom position afterOperand text).map (·.lexeme)) := by
  fun_induction tokensFrom position afterOperand text with
  | case1 position afterOperand =>
    refine ⟨?_, trivial⟩
    intro _ value radix hend
    cases hend
  | case2 position afterOperand c rest _ ih => exact ih
  | case3 position afterOperand c rest _ lexeme more hscan stop ih =>
    refine ⟨?_, ih⟩
    intro hafter value radix hnumber
    have hscanned := scanned afterOperand c rest
    rw [hscan, show lexeme = _ from hnumber, hafter] at hscanned
    exact hscanned.isNegative

end Lexer

section

variable (line : Text)

theorem tokens_eq_append :
    ∃ ts span, tokens line = ts ++ [⟨.endOfInput, span⟩] ∧ ∀ t ∈ ts, t.lexeme ≠ .endOfInput :=
  Lexer.tokensFrom_eq_append 0 false line

theorem signsFit_tokens : Lexer.SignsFit false ((tokens line).map (·.lexeme)) := Lexer.signsFit_tokensFrom 0 false line

variable {line} in
/-- Every token but the end of input is read at a character of the line. -/
theorem exists_scanned_of_mem_tokens {t : Token} (h : t ∈ tokens line) (hend : t.lexeme ≠ .endOfInput) :
    ∃ afterOperand, ∃ c ∈ line, Lexer.Scanned afterOperand c t.lexeme :=
  Lexer.exists_scanned_of_mem_tokensFrom h hend

end

end Calculator
