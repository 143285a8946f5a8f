/-
Displayed numbers are read back.

- `reads_signed`: digits that denote a magnitude, behind a sign where one is displayed, are one token with the number as
  its value;
- `tokens_render`: a finite number displayed in hexadecimal or binary is a line of one token, whose value is the number.

Zero is displayed without a sign, so the zero that is read is the positive one (`positiveZero`).
-/
import Calculator.Proofs.Token.Spelling

namespace Calculator

/-- a number, the negative zero replaced by the positive one -/
def Binary64.positiveZero (x : Binary64) : Binary64 := if x.isZero then zero else x

namespace Lexer

/-- The sign of a displayed number belongs to it, unless an operand ends before a number below zero. -/
theorem reads_signed {radix : Radix} {whole fraction rest : Text} (hne : whole ≠ [])
    (hwhole : ∀ c ∈ whole, radix.isDigit c) (hfraction : ∀ c ∈ fraction, radix.isDigit c)
    (hrest : EndsNumeral radix rest) {negative : Bool} {units : Nat} {h : Representable units}
    (hvalue : radix.value whole fraction = .finite false units h) {afterOperand : Bool}
    (hsign : negative = true → units ≠ 0 → afterOperand = false) :
    Reads afterOperand (Binary64.signText negative units ++ numeralText radix whole fraction) rest
      (.number (Binary64.finite negative units h).positiveZero radix) := by
  by_cases hnegative : negative = true ∧ units ≠ 0
  · obtain ⟨rfl, hunits⟩ := hnegative
    obtain rfl := hsign rfl hunits
    have hread := reads_negative hne hwhole hfraction hrest
    rw [hvalue] at hread
    have hself : (Binary64.finite true units h).positiveZero = .finite true units h := by
      simp [Binary64.positiveZero, Binary64.isZero, hunits]
    rw [Binary64.signText, if_pos ⟨rfl, hunits⟩, List.singleton_append, hself]
    exact hread
  · have hread := reads_numeral hne hwhole hfraction hrest afterOperand
    have hpositive : (Binary64.finite negative units h).positiveZero = .finite false units h := by
      by_cases hunits : units = 0
      · subst hunits; rfl
      · obtain rfl : negative = false := by simpa [hunits] using hnegative
        simp [Binary64.positiveZero, Binary64.isZero, hunits]
    rw [Binary64.signText, if_neg hnegative, List.nil_append, hpositive, ← hvalue]
    exact hread

/-- a line that is one token -/
theorem tokens_of_reads {line : Text} {l : Lexeme} (h : Reads false line [] l) :
    tokens line = [⟨l, ⟨0, line.length⟩⟩, ⟨.endOfInput, ⟨line.length, line.length + 1⟩⟩] := by
  have hread := tokensFrom_reads h 0
  rw [List.append_nil, Nat.zero_add, tokensFrom_nil] at hread
  exact hread

end Lexer

namespace Binary64

theorem render_finite {radix : Radix} (hradix : radix ≠ .decimal) {negative : Bool} {units : Nat}
    (h : Representable units) :
    render radix (.finite negative units h) =
      signText negative units ++ Lexer.numeralText radix (radix.wholeDigits units) (radix.placeDigits units) := by
  rw [Lexer.numeralText, ← Radix.expansion_eq_pointed, ← List.append_assoc]
  cases radix with
  | decimal => exact absurd rfl hradix
  | hexadecimal => rfl
  | binary => rfl

/-- **Hexadecimal and binary display is read back.** A finite number displayed in one of these radixes is one token,
over the whole text, of that radix and of the number as its value. -/
theorem tokens_render {radix : Radix} (hradix : radix ≠ .decimal) {x : Binary64} (hx : x.isFinite) :
    tokens (x.render radix) =
      [⟨.number x.positiveZero radix, ⟨0, (x.render radix).length⟩⟩,
        ⟨.endOfInput, ⟨(x.render radix).length, (x.render radix).length + 1⟩⟩] := by
  match x, hx with
  | .finite negative units h, _ =>
    apply Lexer.tokens_of_reads
    rw [render_finite hradix]
    exact Lexer.reads_signed Nat.toDigits_ne_nil (isDigit_of_mem_toDigits radix _)
      (isDigit_of_mem_fractionDigits radix (radix.scaled_lt units)) (Lexer.breaks_nil.endsNumeral radix)
      (Radix.value_expansion hradix h) fun _ _ => rfl

/-- the number next to zero, below it -/
def leastNegative : Binary64 := .finite true 1 (by decide +kernel)

/-- The number next to zero has 1074 binary places, and is read back from them. -/
theorem tokens_render_leastNegative :
    leastNegative.isFinite ∧ tokens (leastNegative.render .binary) =
      [⟨.number leastNegative .binary, ⟨0, 1079⟩⟩, ⟨.endOfInput, ⟨1079, 1080⟩⟩] := by
  have hlength : (leastNegative.render .binary).length = 1079 := by decide +kernel
  have hself : leastNegative.positiveZero = leastNegative := rfl
  have hfinite : leastNegative.isFinite := rfl
  have hread := tokens_render (by decide : Radix.binary ≠ .decimal) hfinite
  rw [hlength, hself] at hread
  exact ⟨hfinite, hread⟩

end Binary64

end Calculator
