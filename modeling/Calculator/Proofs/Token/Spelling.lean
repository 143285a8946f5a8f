/-
How tokens are spelled, and that they are read as they are spelled.

`Reads after w rest l` says that in front of `rest` the text `w` is read as the token `l`. A text breaks off the token
before it (`Breaks`) when it starts with no character that could belong to a literal, a name or a longer operator; in
front of such a text every spelling is read whole. A numeral also is in front of a name that goes on with no digit of
its radix (`EndsNumeral`).

- `tokensFrom_reads`: what is read is one token of the line;
- `reads_numeral`, `reads_negative`: digits behind the mark of their radix are a literal, with a sign as well;
- `reads_name`, `reads_symbol`: so are names and symbols.
-/
import Calculator.Expr
import Calculator.Proofs.Numeral.Expansion
import Calculator.Proofs.Token.Scanning

namespace Calculator

namespace Lexer

/-- In front of `rest`, the text `w` is read as the token `l`. -/
def Reads (afterOperand : Bool) (w rest : Text) (l : Lexeme) : Prop :=
  ∃ c cs, w = c :: cs ∧ isBlank c = false ∧ scan afterOperand c (cs ++ rest) = (l, cs.length)

theorem tokensFrom_reads {afterOperand : Bool} {w rest : Text} {l : Lexeme} (h : Reads afterOperand w rest l)
    (position : Nat) :
    tokensFrom position afterOperand (w ++ rest) =
      ⟨l, ⟨position, position + w.length⟩⟩ :: tokensFrom (position + w.length) l.endsOperand rest := by
  obtain ⟨c, cs, rfl, hblank, hscan⟩ := h
  have hlength : position + 1 + cs.length = position + (c :: cs).length := by rw [List.length_cons]; omega
  rw [List.cons_append, tokensFrom_scan position hblank hscan, hlength, List.drop_left]

/-- a text that starts with nothing that the token before it could go on with -/
def Breaks (rest : Text) : Prop := ∀ c ∈ rest.head?, isNamePart c = false ∧ c ≠ '.' ∧ c ≠ '*'

theorem breaks_nil : Breaks [] := by simp [Breaks]

/-! ## Characters -/

theorem isUpper_iff {c : Char} : c.isUpper ↔ 'A' ≤ c ∧ c ≤ 'Z' := decide_eq_true_iff

theorem isLower_iff {c : Char} : c.isLower ↔ 'a' ≤ c ∧ c ≤ 'z' :=
  Bool.and_eq_true_iff.trans (and_congr decide_eq_true_iff decide_eq_true_iff)

theorem isNamePart_iff {c : Char} : isNamePart c ↔ c.isUpper ∨ c.isLower ∨ c.isDigit ∨ c = '_' := by
  have halpha : c.isAlpha ↔ c.isUpper ∨ c.isLower := Bool.or_eq_true_iff
  simp [isNamePart, Char.isAlphanum, halpha, or_assoc]

/-- The characters of names are ASCII characters. -/
theorem toNat_lt_of_isNamePart {c : Char} (h : isNamePart c) : c.toNat < 128 := by
  rcases isNamePart_iff.mp h with h | h | h | rfl
  · exact Nat.lt_of_le_of_lt (isUpper_iff.mp h).2 (by decide)
  · exact Nat.lt_of_le_of_lt (isLower_iff.mp h).2 (by decide)
  · exact Nat.lt_of_le_of_lt (Char.isDigit_iff_toNat.mp h).2 (by decide)
  · decide

/-- To check the characters of names, it is enough to check the ASCII characters. -/
theorem forall_isNamePart {p : Char → Prop} (h : ∀ n : Fin 128, isNamePart (Char.ofNat n) → p (Char.ofNat n)) {c : Char}
    (hc : isNamePart c) : p c := by
  have hn := h ⟨c.toNat, toNat_lt_of_isNamePart hc⟩
  simp only [Char.ofNat_toNat] at hn
  exact hn hc

theorem not_isBlank_of_isNamePart {c : Char} (h : isNamePart c) : isBlank c = false :=
  forall_isNamePart (p := fun c => isBlank c = false) (by decide) h

theorem isNamePart_of_isDigit {radix : Radix} {c : Char} (h : radix.isDigit c) : isNamePart c := by
  cases radix with
  | decimal =>
    simp only [Radix.isDigit] at h
    exact isNamePart_iff.mpr (.inr (.inr (.inl h)))
  | hexadecimal =>
    simp only [Radix.isDigit, Bool.or_eq_true, Bool.and_eq_true, decide_eq_true_eq] at h
    rcases h with (h | ⟨h₁, h₂⟩) | ⟨h₁, h₂⟩
    · exact isNamePart_iff.mpr (.inr (.inr (.inl h)))
    · have hlower : c.isLower := isLower_iff.mpr ⟨h₁, Char.le_trans h₂ (by decide)⟩
      exact isNamePart_iff.mpr (.inr (.inl hlower))
    · have hupper : c.isUpper := isUpper_iff.mpr ⟨h₁, Char.le_trans h₂ (by decide)⟩
      exact isNamePart_iff.mpr (.inl hupper)
  | binary =>
    simp only [Radix.isDigit, Bool.or_eq_true, beq_iff_eq] at h
    rcases h with rfl | rfl <;> decide

/-! ## Numerals -/

/-- A text behind that starts with nothing to be taken is not looked at. -/
theorem takeWhile_append_of_stop {p : Char → Bool} {rest : Text} (hrest : ∀ c ∈ rest.head?, p c = false) (text : Text) :
    (text ++ rest).takeWhile p = text.takeWhile p ∧ (text ++ rest).dropWhile p = text.dropWhile p ++ rest := by
  induction text with
  | nil =>
    cases rest with
    | nil => exact ⟨rfl, rfl⟩
    | cons c rest => simp [hrest c rfl]
  | cons c text ih =>
    by_cases hc : p c
    · simp [hc, ih]
    · simp [hc]

theorem takeWhile_append_stop {p : Char → Bool} {body rest : Text} (hbody : ∀ c ∈ body, p c)
    (hrest : ∀ c ∈ rest.head?, p c = false) :
    (body ++ rest).takeWhile p = body ∧ (body ++ rest).dropWhile p = rest := by
  obtain ⟨htake, hdrop⟩ := takeWhile_append_of_stop hrest body
  rw [htake, hdrop, List.takeWhile_eq_self_iff.2 hbody, List.dropWhile_eq_nil_iff.2 hbody]
  exact ⟨rfl, rfl⟩

theorem Breaks.isDigit {rest : Text} (h : Breaks rest) (radix : Radix) : ∀ c ∈ rest.head?, radix.isDigit c = false := by
  intro c hc
  rw [← Bool.not_eq_true]
  exact fun hdigit => absurd (isNamePart_of_isDigit hdigit) (by simp [(h c hc).1])

/-- a text that starts with nothing that the digits before it, or a zero as the mark of a radix, could go on with -/
def EndsNumeral (radix : Radix) (rest : Text) : Prop :=
  ∀ c ∈ rest.head?, radix.isDigit c = false ∧ c ≠ '.' ∧ c ≠ 'x' ∧ c ≠ 'b'

theorem Breaks.endsNumeral {rest : Text} (h : Breaks rest) (radix : Radix) : EndsNumeral radix rest := by
  intro c hc
  obtain ⟨hpart, hpoint, -⟩ := h c hc
  refine ⟨h.isDigit radix c hc, hpoint, ?_, ?_⟩
  · rintro rfl
    cases hpart
  · rintro rfl
    cases hpart

/-- In front of what ends a numeral, digits are read whole. -/
theorem digits?_pointed {radix : Radix} {whole fraction rest : Text} (hne : whole ≠ [])
    (hwhole : ∀ c ∈ whole, radix.isDigit c) (hfraction : ∀ c ∈ fraction, radix.isDigit c)
    (hrest : EndsNumeral radix rest) :
    digits? radix (pointed whole fraction ++ rest) =
      some ⟨radix, whole, fraction, (pointed whole fraction).length⟩ := by
  have hstop : ∀ c ∈ rest.head?, radix.isDigit c = false := fun c hc => (hrest c hc).1
  cases fraction with
  | nil =>
    obtain ⟨htake, hdrop⟩ := takeWhile_append_stop hwhole hstop
    have hpoint : ∀ others, rest ≠ '.' :: others := by
      intro others heq
      subst heq
      exact (hrest '.' rfl).2.1 rfl
    simp [digits?, pointed, htake, hdrop, hne]
  | cons c cs =>
    have hpoint : ∀ d ∈ ('.' :: (c :: cs ++ rest)).head?, radix.isDigit d = false := by
      intro d hd
      cases hd
      cases radix <;> rfl
    obtain ⟨htake, hdrop⟩ := takeWhile_append_stop hwhole hpoint
    obtain ⟨htake', -⟩ := takeWhile_append_stop hfraction hstop
    have happend : pointed whole (c :: cs) ++ rest = whole ++ '.' :: (c :: cs ++ rest) := by simp [pointed]
    have hlength : (pointed whole (c :: cs)).length = whole.length + 1 + (c :: cs).length := by
      simp [pointed]; omega
    have hempty : whole.isEmpty = false := by simpa using hne
    rw [happend, hlength, digits?, htake, hdrop]
    simp only [htake', hempty, Bool.false_and]
    rfl

/-- Behind the first digit of a decimal numeral, no radix is marked. -/
theorem second_of_pointed {whole fraction rest others : Text} {c d : Char} (hne : whole ≠ [])
    (hwhole : ∀ c ∈ whole, Radix.decimal.isDigit c) (hrest : EndsNumeral .decimal rest)
    (heq : pointed whole fraction ++ rest = d :: c :: others) : c ≠ 'x' ∧ c ≠ 'b' := by
  match whole, fraction with
  | [], _ => exact absurd rfl hne
  | [_], [] =>
    have hhead : c ∈ rest.head? := by
      rw [show rest = c :: others from (List.cons.inj heq).2]; rfl
    exact (hrest c hhead).2.2
  | [_], _ :: _ =>
    obtain ⟨-, hc', -⟩ : _ ∧ '.' = c ∧ _ := by simpa [pointed] using heq
    subst hc'
    decide
  | _ :: c' :: _, fraction =>
    have hc' : c' = c := by
      unfold pointed at heq
      split at heq <;> exact (List.cons.inj (List.cons.inj heq).2).1
    have hdigit : c.isDigit := hwhole c (by simp [hc'])
    constructor
    · rintro rfl
      cases hdigit
    · rintro rfl
      cases hdigit

/-- digits behind the mark of their radix -/
def numeralText (radix : Radix) (whole fraction : Text) : Text := radix.mark ++ pointed whole fraction

theorem literal?_numeralText {radix : Radix} {whole fraction rest : Text} (hne : whole ≠ [])
    (hwhole : ∀ c ∈ whole, radix.isDigit c) (hfraction : ∀ c ∈ fraction, radix.isDigit c)
    (hrest : EndsNumeral radix rest) :
    literal? (numeralText radix whole fraction ++ rest) =
      some ⟨radix, whole, fraction, (numeralText radix whole fraction).length⟩ := by
  have hdigits := digits?_pointed hne hwhole hfraction hrest
  cases radix with
  | hexadecimal =>
    rw [numeralText, Radix.mark, List.append_assoc, List.cons_append, List.cons_append, List.nil_append, literal?,
      hdigits]
    rfl
  | binary =>
    rw [numeralText, Radix.mark, List.append_assoc, List.cons_append, List.cons_append, List.nil_append, literal?,
      hdigits]
    rfl
  | decimal =>
    rw [numeralText, Radix.mark, List.nil_append, literal?, hdigits]
    · exact fun others heq => (second_of_pointed hne hwhole hrest heq).1 rfl
    · exact fun others heq => (second_of_pointed hne hwhole hrest heq).2 rfl

/-- The first character of a numeral is a digit or begins the mark of its radix. -/
theorem numeralText_eq_cons {radix : Radix} {whole : Text} (fraction : Text) (hne : whole ≠ [])
    (hwhole : ∀ c ∈ whole, radix.isDigit c) :
    ∃ c cs, numeralText radix whole fraction = c :: cs ∧ isNamePart c := by
  obtain ⟨c, cs, rfl⟩ := List.exists_cons_of_ne_nil hne
  have hc := isNamePart_of_isDigit (hwhole c List.mem_cons_self)
  cases radix with
  | decimal =>
    unfold numeralText pointed
    split
    · exact ⟨c, cs, rfl, hc⟩
    · exact ⟨c, _, rfl, hc⟩
  | hexadecimal => exact ⟨'0', _, rfl, by decide⟩
  | binary => exact ⟨'0', _, rfl, by decide⟩

/-- No literal starts with anything but a digit or a point. -/
theorem literal?_eq_none {text : Text} (h : ∀ c ∈ text.head?, c.isDigit = false ∧ c ≠ '.') : literal? text = none := by
  cases text with
  | nil => rfl
  | cons c rest =>
    obtain ⟨hdigit, hpoint⟩ := h c rfl
    rw [literal?, digits?]
    · simp [Radix.isDigit, hdigit, hpoint]
    · intro others heq
      cases heq
      cases hdigit
    · intro others heq
      cases heq
      cases hdigit

theorem Breaks.literal?_eq_none {rest : Text} (h : Breaks rest) : literal? rest = none := by
  exact Lexer.literal?_eq_none fun c hc => ⟨h.isDigit .decimal c hc, (h c hc).2.1⟩

section

variable {radix : Radix} {whole fraction rest : Text} (hne : whole ≠ []) (hwhole : ∀ c ∈ whole, radix.isDigit c)
  (hfraction : ∀ c ∈ fraction, radix.isDigit c) (hrest : EndsNumeral radix rest)

include hne hwhole hfraction hrest

theorem reads_numeral (afterOperand : Bool) :
    Reads afterOperand (numeralText radix whole fraction) rest (.number (radix.value whole fraction) radix) := by
  have hliteral := literal?_numeralText hne hwhole hfraction hrest
  obtain ⟨c, cs, htext, hc⟩ := numeralText_eq_cons fraction hne hwhole
  rw [htext] at hliteral
  refine ⟨c, cs, htext, not_isBlank_of_isNamePart hc, ?_⟩
  rw [scan, ← List.cons_append, hliteral]
  rfl

/-- A minus is the sign of the numeral behind it, unless an operand ends before it. -/
theorem reads_negative :
    Reads false ('-' :: numeralText radix whole fraction) rest (.number (-radix.value whole fraction) radix) := by
  refine ⟨'-', _, rfl, by decide, ?_⟩
  rw [scan, literal?_eq_none (by simp), if_neg (by decide), if_pos (by decide),
    literal?_numeralText hne hwhole hfraction hrest]
  rfl

end

/-! ## Names and symbols -/

theorem isNamePart_of_isNameStart {c : Char} (h : isNameStart c) : isNamePart c := by
  simp only [isNameStart, Bool.or_eq_true] at h
  simp only [isNamePart, Char.isAlphanum, Bool.or_eq_true]
  exact h.imp_left .inl

theorem not_isDigit_of_isNameStart {c : Char} (h : isNameStart c) : c.isDigit = false ∧ c ≠ '.' :=
  forall_isNamePart (p := fun c => isNameStart c → c.isDigit = false ∧ c ≠ '.') (by decide)
    (isNamePart_of_isNameStart h) h

/-- In front of what breaks off a token, a name is read whole. -/
theorem reads_name {text rest : Text} (htext : IsNameText text) (hrest : Breaks rest) (afterOperand : Bool) :
    Reads afterOperand text rest (.name (String.ofList text)) := by
  obtain ⟨c, cs, rfl, hc, hcs, hlet⟩ := htext
  have hstop : ∀ d ∈ rest.head?, isNamePart d = false := fun d hd => (hrest d hd).1
  refine ⟨c, cs, rfl, not_isBlank_of_isNamePart (isNamePart_of_isNameStart hc), ?_⟩
  have hliteral : literal? (c :: (cs ++ rest)) = none := by
    refine literal?_eq_none fun d hd => ?_
    cases hd
    exact not_isDigit_of_isNameStart hc
  rw [scan, hliteral, if_pos hc, word]
  simp only [(takeWhile_append_stop hcs hstop).1, if_neg hlet]

/-- A symbol of one character is read alone, unless it begins a longer operator or is the sign of a literal. -/
theorem reads_symbol {c : Char} {l : Lexeme} {rest : Text} (h : symbol? c = some l) {afterOperand : Bool}
    (hstar : c = '*' → rest.head? ≠ some '*') (hminus : c = '-' → afterOperand = false → literal? rest = none) :
    Reads afterOperand [c] rest l := by
  have hhead : isBlank c = false ∧ isNameStart c = false ∧ c.isDigit = false ∧ c ≠ '.' := by
    unfold symbol? at h
    split at h
    case h_17 => cases h
    all_goals decide
  obtain ⟨hblank, hstart, hdigit, hpoint⟩ := hhead
  have hliteral : literal? (c :: rest) = none := by
    refine literal?_eq_none fun d hd => ?_
    cases hd
    exact ⟨hdigit, hpoint⟩
  have hsymbol : symbol c rest = (l, 0) := by
    unfold symbol
    split
    · exact absurd rfl (hstar rfl)
    · cases hdigit
    · cases hdigit
    · rw [h]; rfl
  refine ⟨c, [], rfl, hblank, ?_⟩
  rw [List.nil_append, scan, hliteral, hstart]
  simp only [Bool.false_eq_true, if_false, List.length_nil]
  split
  · rename_i hsign
    rw [hminus hsign.1 hsign.2, hsymbol]
  · exact hsymbol

theorem reads_operator (op : Operator) {rest : Text} (hrest : Breaks rest) (afterOperand : Bool) :
    Reads afterOperand op.symbol rest (.operator op) := by
  have hstar : rest.head? ≠ some '*' := fun h => (hrest '*' h).2.2 rfl
  cases op with
  | exponent =>
    refine ⟨'*', ['*'], rfl, by decide, ?_⟩
    rw [scan, literal?_eq_none (by simp), if_neg (by decide), if_neg (by simp)]
    rfl
  | _ => exact reads_symbol rfl (fun _ => hstar) fun _ _ => hrest.literal?_eq_none

end Lexer

end Calculator
