/-
Decimals without an exponent are read back.

A number is `Positional` when its decimal text has no exponent: it is an integer, or not below `0.0001` in magnitude.
The digits of an integer denote it. The shortest decimal of any other number is not below its lower neighbour on the
same grid, so it has too few zeros behind the point for an exponent, and it reads back as the number.

- `lowerNeighbour_le_shortest`: the shortest decimal is one of the neighbours;
- `exists_digits_magnitudeText`: the text of a magnitude is digits that denote it;
- `Positional.reads_text`: a text without an exponent is one token.
-/
import Calculator.Proofs.Numeral.ReadBack

namespace Calculator

open Binary64

/-- a finite number that is an integer, or at least `0.0001` in magnitude -/
def Binary64.Positional : Binary64 → Prop
  | finite _ units _ => units % unit = 0 ∨ unit ≤ 10 ^ 4 * units
  | _ => False

instance : (x : Binary64) → Decidable x.Positional
  | .finite .. => inferInstanceAs (Decidable (_ ∨ _))
  | .infinite _ => inferInstanceAs (Decidable False)
  | .nan => inferInstanceAs (Decidable False)

/-! ## Shortest decimals -/

theorem le_of_neighbour? {units places digits : Nat} (h : neighbour? units places = some digits) :
    lowerNeighbour units places ≤ digits := by
  unfold neighbour? at h
  split at h
  · split at h
    · rw [← Option.some.inj h]; exact le_roundDiv _ _
    · exact Nat.le_of_eq (Option.some.inj h)
  · split at h
    · rw [← Option.some.inj h]; exact Nat.le_succ _
    · cases h

theorem shortestFrom_le (units places more : Nat) :
    places ≤ (shortestFrom units places more).places ∧
      lowerNeighbour units (shortestFrom units places more).places ≤ (shortestFrom units places more).digits := by
  induction more generalizing places with
  | zero => exact ⟨Nat.le_refl _, Nat.le_refl _⟩
  | succ more ih =>
    cases hd : neighbour? units places with
    | none =>
      simp only [shortestFrom, hd, Option.map_none, Option.getD_none]
      exact ⟨Nat.le_of_succ_le (ih (places + 1)).1, (ih (places + 1)).2⟩
    | some digits =>
      simp only [shortestFrom, hd, Option.map_some, Option.getD_some]
      exact ⟨Nat.le_refl _, le_of_neighbour? hd⟩

theorem one_le_places_shortest (units : Nat) : 1 ≤ (shortest units).places := (shortestFrom_le units 1 _).1

theorem lowerNeighbour_le_shortest (units : Nat) :
    lowerNeighbour units (shortest units).places ≤ (shortest units).digits := (shortestFrom_le units 1 _).2

theorem readsBack_iff {units digits places : Nat} :
    readsBack units digits places ↔ roundUnits (digits * unit) (10 ^ places) = units := by simp [readsBack]

/-- The number of a decimal that reads back as a magnitude, with either sign. -/
theorem ofRatio_of_readsBack {units digits places : Nat} (h : Representable units)
    (hread : readsBack units digits places) (negative : Bool) :
    ofRatio negative digits (10 ^ places) = .finite negative units h := by
  rw [ofRatio, roundedUnits, readsBack_iff.1 hread]
  exact ofUnits_of_representable negative h

/-- From `0.0001` on, there are not enough zeros behind the point for an exponent. -/
theorem places_shortest_le {units : Nat} (h : unit ≤ 10 ^ 4 * units) :
    (shortest units).places ≤ (Nat.toDigits 10 (shortest units).digits).length + layout.zeros := by
  have hlower := lowerNeighbour_le_shortest units
  generalize shortest units = d at hlower ⊢
  refine Nat.le_of_not_lt fun hlt => ?_
  have hpos : 0 < (Nat.toDigits 10 d.digits).length := Nat.length_toDigits_pos
  obtain ⟨k, hk⟩ : ∃ k, d.places = k + 4 := ⟨d.places - 4, by simp only [layout] at hlt; omega⟩
  have hdigits : d.digits < 10 ^ k := by
    refine (Nat.length_toDigits_le_iff (by decide) ?_).1 ?_
    all_goals simp only [layout] at hlt; omega
  have hbound : 10 ^ k ≤ lowerNeighbour units d.places := by
    rw [lowerNeighbour, Nat.le_div_iff_mul_le unit_pos, hk, Nat.pow_add]
    calc 10 ^ k * unit ≤ 10 ^ k * (10 ^ 4 * units) := Nat.mul_le_mul_left _ h
      _ = units * (10 ^ k * 10 ^ 4) := by ac_rfl
  omega

/-! ## Texts -/

/-- `whole` and `fraction` are decimal digits that denote a magnitude. -/
structure Denotes (whole fraction : Text) (units : Nat) : Prop where
  ne_nil : whole ≠ []
  isDigit_whole : ∀ c ∈ whole, Radix.decimal.isDigit c
  isDigit_fraction : ∀ c ∈ fraction, Radix.decimal.isDigit c
  value_eq : ∀ h : Representable units, Radix.decimal.value whole fraction = .finite false units h

/-- The digits of an integer denote it. -/
theorem denotes_toDigits {units : Nat} (h : units % unit = 0) : Denotes (Nat.toDigits 10 (units / unit)) [] units where
  ne_nil := Nat.toDigits_ne_nil
  isDigit_whole := isDigit_of_mem_toDigits .decimal _
  isDigit_fraction := by simp
  value_eq := by
    intro hunits
    refine ofRatio_of_eq (Nat.pow_pos (by decide)) hunits ?_
    rw [List.append_nil, ofDigits_toDigits (by decide) (by decide), List.length_nil, Nat.pow_zero, Nat.mul_one,
      Nat.div_mul_cancel (Nat.dvd_of_mod_eq_zero h)]

/-- the digits of a decimal behind the point, with all places -/
def Decimal.fraction (d : Decimal) : Text := padLeft d.places (Nat.toDigits 10 (d.digits % 10 ^ d.places))

theorem Decimal.length_fraction {d : Decimal} (h : 1 ≤ d.places) : d.fraction.length = d.places := by
  refine length_padLeft ?_
  exact (Nat.length_toDigits_le_iff (by decide) h).2 (Nat.mod_lt _ (Nat.pow_pos (by decide)))

theorem Decimal.positional_eq_pointed {d : Decimal} (h : 1 ≤ d.places) :
    d.positional = pointed (Nat.toDigits 10 (d.digits / 10 ^ d.places)) d.fraction := by
  have hne : d.fraction.isEmpty = false := by
    rw [List.isEmpty_eq_false_iff, ← List.length_pos_iff, d.length_fraction h]
    exact h
  rw [pointed, hne]
  rfl

theorem Decimal.ofDigits_fraction {d : Decimal} (h : 1 ≤ d.places) :
    ofDigits 10 (Nat.toDigits 10 (d.digits / 10 ^ d.places) ++ d.fraction) = d.digits := by
  rw [ofDigits_append, d.length_fraction h, Decimal.fraction, ofDigits_padLeft, ofDigits_toDigits (by decide) (by decide),
    ofDigits_toDigits (by decide) (by decide), Nat.div_add_mod']

/-- The digits of a decimal that reads back denote what it reads back as. -/
theorem Decimal.denotes_fraction {d : Decimal} (h : 1 ≤ d.places) {units : Nat}
    (hread : readsBack units d.digits d.places) :
    Denotes (Nat.toDigits 10 (d.digits / 10 ^ d.places)) d.fraction units where
  ne_nil := Nat.toDigits_ne_nil
  isDigit_whole := isDigit_of_mem_toDigits .decimal _
  isDigit_fraction := isDigit_of_mem_padLeft (isDigit_of_mem_toDigits .decimal _)
  value_eq := by
    intro hunits
    unfold Radix.value
    rw [d.ofDigits_fraction h, d.length_fraction h]
    exact ofRatio_of_readsBack hunits hread false

/-- The text of a magnitude that needs no exponent is made of digits that denote it. -/
theorem exists_digits_magnitudeText {units : Nat} (h : Representable units)
    (hsize : units % unit = 0 ∨ unit ≤ 10 ^ 4 * units) :
    ∃ whole fraction, magnitudeText units = pointed whole fraction ∧ Denotes whole fraction units := by
  unfold magnitudeText
  by_cases hint : units % unit = 0
  · rw [if_pos hint]
    exact ⟨_, [], rfl, denotes_toDigits hint⟩
  · have hplaces := one_le_places_shortest units
    rw [if_neg hint, Decimal.text, if_pos (places_shortest_le (hsize.resolve_left hint))]
    exact ⟨_, _, Decimal.positional_eq_pointed hplaces, Decimal.denotes_fraction hplaces (readsBack_shortest h)⟩

/-- **Decimal display is read back.** The text of a number that has no exponent is one token, with the number as its
value, unless an operand ends before a number below zero. -/
theorem Binary64.Positional.reads_text {x : Binary64} (hx : x.Positional) {afterOperand : Bool}
    (hsign : afterOperand = true → x.positiveZero.isNegative = false) {rest : Text} (hrest : Lexer.Breaks rest) :
    Lexer.Reads afterOperand x.text rest (.number x.positiveZero .decimal) := by
  match x, hx with
  | .finite negative units h, hx =>
    obtain ⟨whole, fraction, htext, hdigits⟩ := exists_digits_magnitudeText h hx
    rw [text, htext, ← List.nil_append (pointed whole fraction)]
    refine Lexer.reads_signed hdigits.ne_nil hdigits.isDigit_whole hdigits.isDigit_fraction
      (hrest.endsNumeral _) (hdigits.value_eq h) fun hnegative hunits => ?_
    rw [← Bool.not_eq_true]
    intro hafter
    have hpositive := hsign hafter
    simp [positiveZero, isZero, hunits, isNegative, hnegative] at hpositive

end Calculator
