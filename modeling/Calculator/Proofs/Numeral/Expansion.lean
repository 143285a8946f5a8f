/-
Expansions in base 2 and 16 are exact.

The whole part and the fraction of a magnitude are magnitudes themselves, so none of the three roundings of a
hexadecimal or binary literal changes anything when the literal is an expansion.

- `representable_whole`: the whole part of a magnitude is a magnitude;
- `Radix.value_expansion`: an expansion denotes the number it was made from.
-/
import Calculator.Proofs.Numeral.Digits

namespace Calculator

open Binary64

/-- digits with a point before those of the fraction, where there are any -/
def pointed (whole fraction : Text) : Text := if fraction.isEmpty then whole else whole ++ '.' :: fraction

namespace Radix

/-- the digits of a magnitude before the point -/
def wholeDigits (radix : Radix) (units : Nat) : Text := Nat.toDigits radix.base (units / unit)

/-- the digits of a magnitude after the point -/
def placeDigits (radix : Radix) (units : Nat) : Text :=
  fractionDigits radix.base radix.fractionPlaces.1 (units % unit * radix.fractionPlaces.2)

/-- With all its places, every fraction is a natural number. -/
theorem base_pow_fractionPlaces (radix : Radix) : radix.base ^ radix.fractionPlaces.1 = radix.fractionPlaces.2 * unit := by
  cases radix with
  | decimal => exact ten_pow_eq unitPlaces
  | hexadecimal =>
    have hplaces : 4 * hexadecimal.fractionPlaces.1 = 2 + unitPlaces := by rw [unitPlaces_eq]; rfl
    have hpow : ∀ places, hexadecimal.base ^ places = 2 ^ (4 * places) := fun places => (Nat.pow_mul 2 4 places).symm
    rw [hpow, hplaces, Nat.pow_add]
    rfl
  | binary => exact (Nat.one_mul _).symm

theorem fractionPlaces_pos (radix : Radix) : 0 < radix.fractionPlaces.2 := by
  cases radix with
  | decimal => exact Nat.pow_pos (by decide)
  | hexadecimal => decide
  | binary => decide

theorem scaled_lt (radix : Radix) (units : Nat) :
    units % unit * radix.fractionPlaces.2 < radix.base ^ radix.fractionPlaces.1 := by
  rw [base_pow_fractionPlaces, Nat.mul_comm _ unit]
  exact Nat.mul_lt_mul_of_pos_right (Nat.mod_lt _ unit_pos) radix.fractionPlaces_pos

theorem expansion_eq_pointed (radix : Radix) (units : Nat) :
    radix.expansion units = pointed (radix.wholeDigits units) (radix.placeDigits units) := by
  unfold expansion pointed
  by_cases hfraction : units % unit = 0
  · simp [hfraction, wholeDigits, placeDigits, fractionDigits_zero]
  · have hne : radix.placeDigits units ≠ [] :=
      fractionDigits_ne_nil (radix.scaled_lt units) (Nat.mul_ne_zero hfraction (Nat.ne_of_gt radix.fractionPlaces_pos))
    simp only [hfraction, List.isEmpty_iff, hne, if_false]
    rfl

theorem ofDigits_wholeDigits (radix : Radix) (units : Nat) :
    ofDigits radix.base (radix.wholeDigits units) = units / unit :=
  ofDigits_toDigits radix.one_lt_base radix.base_le _

theorem ofDigits_placeDigits (radix : Radix) (units : Nat) :
    ofDigits radix.base (radix.placeDigits units) * unit =
      units % unit * radix.base ^ (radix.placeDigits units).length := by
  have hdigits := ofDigits_fractionDigits radix.base_pos radix.base_le
    (radix.scaled_lt units)
  rw [base_pow_fractionPlaces] at hdigits
  refine Nat.eq_of_mul_eq_mul_left radix.fractionPlaces_pos ?_
  calc radix.fractionPlaces.2 * (ofDigits radix.base (radix.placeDigits units) * unit)
      = ofDigits radix.base (radix.placeDigits units) * (radix.fractionPlaces.2 * unit) := by ac_rfl
    _ = units % unit * radix.fractionPlaces.2 * radix.base ^ (radix.placeDigits units).length := hdigits
    _ = radix.fractionPlaces.2 * (units % unit * radix.base ^ (radix.placeDigits units).length) := by ac_rfl

end Radix

/-! ## Both parts are exact -/

/-- The whole part of a magnitude is a magnitude: it lies on the grid of the magnitude, or on that of the integers. -/
theorem representable_whole {units : Nat} (h : Representable units) : Representable (units / unit * unit) := by
  have hle : units / unit * unit ≤ units := Nat.div_mul_le_self _ _
  refine ⟨Nat.lt_of_le_of_lt hle h.1, ?_⟩
  refine Nat.dvd_trans (Nat.pow_dvd_pow 2 (excess_mono hle)) ?_
  rcases Nat.le_total (excess units) unitPlaces with hfine | hcoarse
  · exact Nat.dvd_mul_left_of_dvd (Nat.pow_dvd_pow 2 hfine) _
  · have hdvd : unit ∣ units := Nat.dvd_trans (Nat.pow_dvd_pow 2 hcoarse) h.2
    rw [Nat.div_mul_cancel hdvd]
    exact h.2

theorem representable_unit : Representable unit := by
  have hlt : unit < unitLimit := Nat.pow_lt_pow_right (by decide) (by omega)
  have hexcess : excess unit ≤ unitPlaces := by rw [excess, unit, Nat.log2_two_pow]; omega
  exact ⟨hlt, Nat.pow_dvd_pow 2 hexcess⟩

theorem representable_fraction {units : Nat} (h : Representable units) : Representable (units % unit) :=
  representable_mod h representable_unit

/-- An exact quotient is not rounded. -/
theorem ofRatio_of_eq {num den units : Nat} (hden : 0 < den) (h : Representable units)
    (heq : num * unit = units * den) : ofRatio false num den = .finite false units h := by
  rw [ofRatio, heq]
  exact roundedUnits_of_representable false hden h

/-- The sum of two magnitudes is rounded once. -/
theorem finite_add_finite {u v : Nat} (hu : Representable u) (hv : Representable v) :
    Binary64.finite false u hu + .finite false v hv = roundedUnits false (u + v) 1 := by
  have htotal : signedUnits false u + signedUnits false v = ((u + v : Nat) : Int) := by simp [signedUnits]
  have hsign : (if ((u + v : Nat) : Int) = 0 then (false && false) else decide (((u + v : Nat) : Int) < 0)) = false := by
    split
    · rfl
    · exact decide_eq_false (by omega)
  show add _ _ = _
  rw [add, htotal, hsign, Int.natAbs_natCast]

/-- A sum of magnitudes that is a magnitude is not rounded. -/
theorem finite_add_of_representable {u v : Nat} (hu : Representable u) (hv : Representable v)
    (h : Representable (u + v)) : Binary64.finite false u hu + .finite false v hv = .finite false (u + v) h := by
  have hround := roundedUnits_of_representable false Nat.one_pos h
  rw [Nat.mul_one] at hround
  rw [finite_add_finite, hround]

/-- **Expansions are exact.** In base 2 and 16 the digits of a magnitude denote the magnitude. -/
theorem Radix.value_expansion {radix : Radix} (hradix : radix ≠ .decimal) {units : Nat} (h : Representable units) :
    radix.value (radix.wholeDigits units) (radix.placeDigits units) = .finite false units h := by
  have hwhole : Binary64.ofNat (ofDigits radix.base (radix.wholeDigits units)) =
      .finite false _ (representable_whole h) := by
    rw [radix.ofDigits_wholeDigits, Binary64.ofNat]
    exact ofRatio_of_eq Nat.one_pos _ (Nat.mul_one _).symm
  have hfraction : fractionValue radix.base (radix.placeDigits units) = .finite false _ (representable_fraction h) :=
    ofRatio_of_eq (Nat.pow_pos radix.base_pos) _ (radix.ofDigits_placeDigits units)
  have hparts : units / unit * unit + units % unit = units := Nat.div_add_mod' units unit
  have hsum := finite_add_of_representable (representable_whole h) (representable_fraction h) (by rwa [hparts])
  simp only [hparts] at hsum
  cases radix with
  | decimal => exact absurd rfl hradix
  | hexadecimal => rw [← hsum, ← hwhole, ← hfraction]; rfl
  | binary => rw [← hsum, ← hwhole, ← hfraction]; rfl

end Calculator
