/-
The numbers that literals denote.

A decimal literal is rounded once, to the nearest number. Of a hexadecimal or binary literal the whole part, the
fraction and their sum are rounded. There is no number between the exact value of such a literal and the number that is
read, but that may be the farther one of the two numbers around the value.

- `ofDigits_lt`: digits behind a point are a fraction below one;
- `value_eq`: the three roundings of a literal, on counts of units;
- `isNearest_decimal`: a decimal literal is the number nearest to its value;
- `value_faithful`: any other literal has no number between it and its value, and is the nearest number if none of its
  parts needs rounding or there is only one part;
- `tokens_halfwayLiteral`: one that is not the nearest number.
-/
import Calculator.Proofs.Binary64.Faithful
import Calculator.Proofs.Numeral.Canonical
import Calculator.Proofs.Token.Spelling

namespace Calculator

open Binary64

/-! ## Digits -/

theorem digitValue_lt {radix : Radix} {c : Char} (h : radix.isDigit c) : digitValue c < radix.base := by
  have hall : radix.isDigit c → digitValue c < radix.base :=
    Lexer.forall_isNamePart (p := fun c => radix.isDigit c → digitValue c < radix.base) (by cases radix <;> decide)
      (Lexer.isNamePart_of_isDigit h)
  exact hall h

theorem ofDigits_lt {radix : Radix} {digits : Text} (h : ∀ c ∈ digits, radix.isDigit c) :
    ofDigits radix.base digits < radix.base ^ digits.length := by
  induction digits with
  | nil => exact Nat.one_pos
  | cons c cs ih =>
    obtain ⟨hc, hcs⟩ := List.forall_mem_cons.1 h
    rw [ofDigits_cons, List.length_cons]
    calc digitValue c * radix.base ^ cs.length + ofDigits radix.base cs
        < digitValue c * radix.base ^ cs.length + radix.base ^ cs.length := Nat.add_lt_add_left (ih hcs) _
      _ = (digitValue c + 1) * radix.base ^ cs.length := (Nat.succ_mul ..).symm
      _ ≤ radix.base * radix.base ^ cs.length := Nat.mul_le_mul_right _ (digitValue_lt hc)
      _ = radix.base ^ (cs.length + 1) := (Nat.pow_succ').symm

/-! ## Exact values -/

theorem exactValue_eq {base : Nat} (hbase : 0 < base) (whole fraction : Text) :
    exactValue base whole fraction =
      ((ofDigits base whole * base ^ fraction.length + ofDigits base fraction : Nat) : ℚ) /
        (base ^ fraction.length : Nat) := by
  have hpow : ((base ^ fraction.length : Nat) : ℚ) ≠ 0 := Nat.cast_ne_zero.2 (Nat.ne_of_gt (Nat.pow_pos hbase))
  rw [exactValue, Nat.cast_add, Nat.cast_mul, add_div, mul_div_cancel_right₀ _ hpow, Nat.cast_pow]

/-- **A decimal literal is rounded once.** -/
theorem isNearest_decimal (whole fraction : Text) :
    IsNearest (exactValue Radix.decimal.base whole fraction) (Radix.decimal.value whole fraction) := by
  have hpow : 0 < Radix.decimal.base ^ fraction.length := Nat.pow_pos Radix.decimal.base_pos
  have hvalue : Radix.decimal.value whole fraction = .ofRatio false
      (ofDigits Radix.decimal.base whole * Radix.decimal.base ^ fraction.length + ofDigits Radix.decimal.base fraction)
      (Radix.decimal.base ^ fraction.length) :=
    congrArg (fun n => ofRatio false n (10 ^ fraction.length)) (ofDigits_append 10 whole fraction)
  rw [hvalue, exactValue_eq Radix.decimal.base_pos]
  exact isNearest_ofRatio_positive hpow

/-! ## Three roundings -/

namespace Radix

variable {radix : Radix} (hradix : radix ≠ .decimal) {whole fraction : Text}
  (hfraction : ∀ c ∈ fraction, radix.isDigit c)

include hradix hfraction

/-- The whole part, the fraction and the sum are rounded. -/
theorem value_eq : radix.value whole fraction =
    ofUnits false (joinUnits (ofDigits radix.base whole) (ofDigits radix.base fraction)
      (radix.base ^ fraction.length)) := by
  have hpow : 0 < radix.base ^ fraction.length := Nat.pow_pos radix.base_pos
  have hbelow := roundUnits_fraction_le hpow (ofDigits_lt hfraction)
  have hrepresentable := representable_roundUnits (Nat.lt_of_le_of_lt hbelow representable_unit.1)
  have hvalue : fractionValue radix.base fraction = .finite false _ hrepresentable :=
    ofUnits_of_representable false hrepresentable
  have hwhole : Binary64.ofNat (ofDigits radix.base whole) =
      ofUnits false (roundUnits (ofDigits radix.base whole * unit) 1) := rfl
  have hsum : radix.value whole fraction = .ofNat (ofDigits radix.base whole) + fractionValue radix.base fraction := by
    cases radix with
    | decimal => exact absurd rfl hradix
    | hexadecimal => rfl
    | binary => rfl
  rw [hsum, hvalue, hwhole, ofUnits_add_finite representable_roundUnits hrepresentable]
  rfl

/-- No number is between the exact value of a literal and the number that is read. -/
theorem isFaithful_value : IsFaithful (exactValue radix.base whole fraction) (radix.value whole fraction) := by
  have hpow : 0 < radix.base ^ fraction.length := Nat.pow_pos radix.base_pos
  have hpow' : (0 : ℚ) < (radix.base ^ fraction.length : Nat) := Nat.cast_pos.2 hpow
  rw [value_eq hradix hfraction, exactValue_eq radix.base_pos]
  refine isFaithful_ofUnits (div_nonneg (Nat.cast_nonneg _) hpow'.le) representable_joinUnits ?_ ?_
  · intro u hu hle
    rw [div_le_div_iff₀ cast_unit_pos hpow'] at hle
    exact le_joinUnits hpow (ofDigits_lt hfraction) hu (by exact_mod_cast hle)
  · intro u hu hle
    rw [div_le_div_iff₀ hpow' cast_unit_pos] at hle
    exact joinUnits_le hpow (ofDigits_lt hfraction) hu (by exact_mod_cast hle)

/-- A literal is out of range exactly when its exact value is. -/
theorem value_eq_infinite_iff :
    radix.value whole fraction = .infinite false ↔ (overflow : ℚ) ≤ exactValue radix.base whole fraction := by
  have hpow : 0 < radix.base ^ fraction.length := Nat.pow_pos radix.base_pos
  have hlt := ofDigits_lt hfraction
  rw [value_eq hradix hfraction, ofUnits_eq_infinite_iff representable_joinUnits, unitLimit_le_joinUnits_iff hpow hlt,
    exactValue_eq radix.base_pos, le_div_iff₀ (Nat.cast_pos.2 hpow), ← Nat.cast_mul, Nat.cast_le]
  constructor
  · intro h
    exact Nat.le_trans (Nat.mul_le_mul_right _ h) (Nat.le_add_right ..)
  · intro h
    -- Below one, the fraction does not make up for a whole part that is too small.
    have hsucc : overflow * radix.base ^ fraction.length <
        (ofDigits radix.base whole + 1) * radix.base ^ fraction.length := by
      rw [Nat.succ_mul]
      exact Nat.lt_of_le_of_lt h (Nat.add_lt_add_left hlt _)
    exact Nat.le_of_lt_succ (Nat.lt_of_mul_lt_mul_right hsucc)

end Radix

/-- a rational number that needs no rounding -/
def IsNumber (q : ℚ) : Prop := ∃ x : Binary64, x.isFinite ∧ x.toRat = q

theorem IsNumber.exists_units {num den : Nat} (hden : 0 < den) (h : IsNumber ((num : ℚ) / den)) :
    ∃ u, Representable u ∧ num * unit = u * den := by
  obtain ⟨x, hx, heq⟩ := h
  obtain ⟨u, hu, hvalue⟩ := exists_magnitude hx (heq ▸ div_nonneg (Nat.cast_nonneg _) (Nat.cast_nonneg _))
  rw [heq, div_eq_div_iff (Nat.cast_ne_zero.2 (Nat.ne_of_gt hden)) cast_unit_pos.ne'] at hvalue
  exact ⟨u, hu, by exact_mod_cast hvalue⟩

/-- Where a literal is rounded once, or not at all: its parts are numbers, or one of them is zero. -/
def RoundedOnce (base : Nat) (whole fraction : Text) : Prop :=
  IsNumber (ofDigits base whole) ∧ IsNumber ((ofDigits base fraction : ℚ) / (base ^ fraction.length : Nat)) ∨
    ofDigits base fraction = 0 ∨ ofDigits base whole = 0

theorem ofUnits_joinUnits_exact {whole num den : Nat} (hden : 0 < den) (hwhole : IsNumber whole)
    (hfraction : IsNumber ((num : ℚ) / den)) :
    ofUnits false (joinUnits whole num den) = ofRatio false (whole * den + num) den := by
  have hwhole' : IsNumber ((whole : ℚ) / (1 : Nat)) := by rwa [Nat.cast_one, div_one]
  obtain ⟨u, hu, heq⟩ := hwhole'.exists_units Nat.one_pos
  obtain ⟨v, hv, hfraction⟩ := hfraction.exists_units hden
  rw [Nat.mul_one] at heq
  rw [joinUnits_eq hden (heq ▸ hu) hv hfraction]
  rfl

/-- **Hexadecimal and binary literals are faithful.** No number is between the exact value of such a literal, however
many digits it has, and the number that it is read as. It is read as infinity from the middle between the largest number
and `2 ^ 1024` on, and as the nearest number if its parts need no rounding or one of them is zero. -/
theorem value_faithful {radix : Radix} (hradix : radix ≠ .decimal) {whole fraction : Text}
    (hfraction : ∀ c ∈ fraction, radix.isDigit c) :
    IsFaithful (exactValue radix.base whole fraction) (radix.value whole fraction) ∧
      (radix.value whole fraction = .infinite false ↔ (overflow : ℚ) ≤ exactValue radix.base whole fraction) ∧
      (RoundedOnce radix.base whole fraction →
        IsNearest (exactValue radix.base whole fraction) (radix.value whole fraction)) := by
  refine ⟨Radix.isFaithful_value hradix hfraction, Radix.value_eq_infinite_iff hradix hfraction, fun honce => ?_⟩
  have hpow : 0 < radix.base ^ fraction.length := Nat.pow_pos radix.base_pos
  rw [Radix.value_eq hradix hfraction, exactValue_eq radix.base_pos]
  rcases honce with ⟨hwhole, hexact⟩ | hzero | hzero
  · rw [ofUnits_joinUnits_exact hpow hwhole hexact]
    exact isNearest_ofRatio_positive hpow
  · have hvalue : ((ofDigits radix.base whole * radix.base ^ fraction.length : Nat) : ℚ) /
        (radix.base ^ fraction.length : Nat) = (ofDigits radix.base whole : Nat) / (1 : Nat) := by
      rw [Nat.cast_mul, mul_div_cancel_right₀ _ (Nat.cast_ne_zero.2 (Nat.ne_of_gt hpow)), Nat.cast_one, div_one]
    rw [hzero, ofUnits_joinUnits_zero, Nat.add_zero, hvalue]
    exact isNearest_ofRatio_positive Nat.one_pos
  · rw [hzero, ofUnits_joinUnits_zero_left, Nat.zero_mul, Nat.zero_add]
    exact isNearest_ofRatio_positive hpow

/-- Twelve and three sixteenths are numbers, and so is their sum. -/
theorem value_faithful_threeSixteenths :
    Radix.hexadecimal ≠ .decimal ∧ (∀ c ∈ ['3'], Radix.hexadecimal.isDigit c) ∧
      RoundedOnce Radix.hexadecimal.base ['c'] ['3'] ∧
      IsNearest (exactValue Radix.hexadecimal.base ['c'] ['3']) (Radix.hexadecimal.value ['c'] ['3']) := by
  have hdigits : ∀ c ∈ ['3'], Radix.hexadecimal.isDigit c := List.forall_mem_singleton.2 rfl
  have hwhole : IsNumber (ofDigits Radix.hexadecimal.base ['c']) :=
    ⟨.ofRatio false 12 1, by decide +kernel, by decide +kernel⟩
  have hfraction : IsNumber ((ofDigits Radix.hexadecimal.base ['3'] : ℚ) / (Radix.hexadecimal.base ^ 1 : Nat)) :=
    ⟨.ofRatio false 3 16, by decide +kernel, by decide +kernel⟩
  have honce : RoundedOnce Radix.hexadecimal.base ['c'] ['3'] := .inl ⟨hwhole, hfraction⟩
  exact ⟨by decide, hdigits, honce, (value_faithful (by decide) hdigits).2.2 honce⟩

/-- **Not the nearest number.** Between `2 ^ 53` and `2 ^ 54` the numbers are the even integers. Of the literal that is
`2 ^ 53 + 1` and a half, the whole part is in the middle of two of them and is rounded down, and what is behind the
point does not bring it back. -/
theorem tokens_halfwayLiteral :
    tokens "0x20000000000001.8".toList =
        [⟨.number (ofRatio false (2 ^ 53) 1) .hexadecimal, ⟨0, 18⟩⟩, ⟨.endOfInput, ⟨18, 19⟩⟩] ∧
      Radix.hexadecimal.value "20000000000001".toList ['8'] = ofRatio false (2 ^ 53) 1 ∧
      ¬ IsNearest (exactValue Radix.hexadecimal.base "20000000000001".toList ['8']) (ofRatio false (2 ^ 53) 1) ∧
      IsNearest (exactValue Radix.hexadecimal.base "20000000000001".toList ['8']) (ofRatio false (2 ^ 53 + 2) 1) := by
  have hvalue : exactValue Radix.hexadecimal.base "20000000000001".toList ['8'] = 2 ^ 53 + 3 / 2 := by decide +kernel
  refine ⟨by decide +kernel, by decide +kernel, fun hnearest => ?_, ?_⟩
  · have hle := hnearest.abs_sub_le (y := ofRatio false (2 ^ 53 + 2) 1) (by decide +kernel) (by decide +kernel)
    have hread : (ofRatio false (2 ^ 53) 1).toRat = 2 ^ 53 := by decide +kernel
    have hother : (ofRatio false (2 ^ 53 + 2) 1).toRat = 2 ^ 53 + 2 := by decide +kernel
    rw [hvalue, hread, hother] at hle
    norm_num at hle
  · -- In decimal, the same number is read as the nearest one.
    have hdecimal := isNearest_decimal "9007199254740993".toList ['5']
    have hsame : exactValue Radix.decimal.base "9007199254740993".toList ['5'] = 2 ^ 53 + 3 / 2 := by decide +kernel
    have hrounded : Radix.decimal.value "9007199254740993".toList ['5'] = ofRatio false (2 ^ 53 + 2) 1 := by
      decide +kernel
    rwa [hsame, ← hvalue, hrounded] at hdecimal

end Calculator
