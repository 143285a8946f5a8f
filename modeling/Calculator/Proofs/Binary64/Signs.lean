/-
The greatest common divisor of numbers below zero.

Euclid's loop stops at the first divisor that is not above zero. Between numbers that are not below zero that is a zero,
and the loop has found their greatest common divisor. A second number below zero stops it before its first turn, with
the first number as the result; a first number below zero leaves a remainder that is not above zero, and the result is
the second one.

- `divides_iff`: a number divides another exactly if its count of units divides the other count;
- `gcd_stops_before`, `gcd_stops_behind`: where the loop stops at a number below zero;
- `gcd_abs_iff`: signs do not matter exactly where the result divides both numbers.
-/
import Calculator.Proofs.Binary64.Gcd
import Calculator.Proofs.Binary64.Rational

namespace Calculator.Binary64

/-! ## Divisors -/

/-- An integer times the one number is the other. -/
def Divides (x y : Binary64) : Prop := ∃ n : ℤ, y.toRat = n * x.toRat

theorem divides_iff {x y : Binary64} (hx : x.isFinite) (hy : y.isFinite) : Divides x y ↔ x.units ∣ y.units := by
  obtain ⟨s, u, hu, rfl⟩ := exists_finite_of_isFinite hx
  obtain ⟨t, v, hv, rfl⟩ := exists_finite_of_isFinite hy
  have hscale (n : ℤ) : (finite t v hv).toRat = n * (finite s u hu).toRat ↔ signedUnits t v = signedUnits s u * n := by
    rw [toRat, toRat, ← mul_div_assoc, div_left_inj' (ne_of_gt cast_unit_pos), ← Int.cast_mul, Int.cast_inj,
      Int.mul_comm]
  calc Divides (finite s u hu) (finite t v hv) ↔ ∃ n, signedUnits t v = signedUnits s u * n := exists_congr hscale
    _ ↔ signedUnits s u ∣ signedUnits t v := Iff.rfl
    _ ↔ u ∣ v := by rw [← Int.natAbs_dvd_natAbs, natAbs_signedUnits, natAbs_signedUnits]

/-! ## Magnitudes -/

theorem measures_abs {x : Binary64} (h : x.isFinite) : x.abs.Measures x.units := by
  obtain ⟨s, u, hu, rfl⟩ := exists_finite_of_isFinite h
  exact ⟨false, hu, rfl, fun hnegative => nomatch hnegative⟩

theorem Measures.ieeeEq_iff {x y : Binary64} {m n : Nat} (hx : x.Measures m) (hy : y.Measures n) :
    x.ieeeEq y ↔ m = n := by
  constructor
  · intro heq
    obtain ⟨s, hm, rfl, hs⟩ := hx
    obtain ⟨t, hn, rfl, ht⟩ := hy
    have hunits : signedUnits s m = signedUnits t n := by simpa [Binary64.ieeeEq] using heq
    rw [← natAbs_signedUnits s m, hunits, natAbs_signedUnits]
  · rintro rfl
    exact hx.ieeeEq hy

section

variable {a b : Binary64} (ha : a.isFinite) (hb : b.isFinite)

include ha hb

/-- The greatest common divisor of the magnitudes is that of the counts of units. -/
theorem measures_gcd_abs : (gcd a.abs b.abs).Measures (Nat.gcd a.units b.units) :=
  (measures_abs ha).gcd (measures_abs hb)

/-- A finite result has the magnitude of that if it is as many units. -/
theorem abs_ieeeEq_gcd_abs_iff {g : Binary64} (hg : g.isFinite) :
    g.abs.ieeeEq (gcd a.abs b.abs) ↔ g.units = Nat.gcd a.units b.units :=
  (measures_abs hg).ieeeEq_iff (measures_gcd_abs ha hb)

end

/-! ## Where the loop stops -/

theorem isPositive_eq_zero_lt (x : Binary64) : x.isPositive = zero.lt x := by
  cases x with
  | nan => rfl
  | infinite negative => rfl
  | finite negative units h =>
    rw [Bool.eq_iff_iff]
    cases negative <;> simp [isPositive, lt, zero, signedUnits, Nat.pos_iff_ne_zero]

theorem isPositive_of_lt_zero {x : Binary64} (h : x.lt zero) : x.isPositive = false := by
  cases x with
  | nan => rfl
  | infinite negative =>
    cases negative with
    | false => cases h
    | true => rfl
  | finite negative units hunits =>
    obtain ⟨rfl, -⟩ := lt_zero_iff.1 h
    rfl

theorem isPositive_of_isZero {x : Binary64} (h : x.isZero) : x.isPositive = false := by
  obtain ⟨s, rfl⟩ := exists_finite_of_isZero h
  cases s <;> rfl

theorem units_of_isZero {x : Binary64} (h : x.isZero) : x.units = 0 := by
  obtain ⟨s, rfl⟩ := exists_finite_of_isZero h
  rfl

theorem gcd_of_isZero {a : Binary64} (b : Binary64) (h : a.isZero) : gcd a b = b := by rw [gcd, if_pos h]

theorem euclid_of_not_isPositive (a : Binary64) {b : Binary64} (h : b.isPositive = false) : euclid a b = a := by
  rw [euclid, dif_neg (by simp [h])]

/-- A second number that is not above zero stops the loop before its first turn. -/
theorem gcd_stops_before {a b : Binary64} (ha : a.isZero = false) (hb : b.isPositive = false) : gcd a b = a := by
  rw [gcd, if_neg (by simp [ha]), euclid_of_not_isPositive a hb]

/-- Behind a number below zero, no remainder is above zero: it has the sign of its dividend. -/
theorem gcd_stops_behind {a b : Binary64} (ha : a.lt zero) (hb : b.isPositive) : gcd a b = b := by
  have hremainder : (remainder a b).isPositive = false := by
    cases a with
    | finite s u hu =>
      obtain ⟨rfl, -⟩ := lt_zero_iff.1 ha
      cases b with
      | finite t v hv =>
        rw [remainder]
        split <;> rfl
      | _ => rfl
    | _ => cases b <;> rfl
  have hzero : a.isZero = false := by
    cases a with
    | finite s u hu =>
      obtain ⟨-, hu⟩ := lt_zero_iff.1 ha
      simpa [isZero] using hu
    | _ => rfl
  rw [gcd, if_neg (by simp [hzero]), euclid, dif_pos hb, euclid_of_not_isPositive b hremainder]

section

variable {a b : Binary64} (ha : a.isFinite) (hb : b.isFinite)

include ha hb

/-- Where one of two numbers is zero, or neither is below zero, the loop ends with a zero. -/
theorem units_gcd (h : a.isZero ∨ b.isZero ∨ a.lt zero = false ∧ b.lt zero = false) :
    (gcd a b).isFinite ∧ (gcd a b).units = Nat.gcd a.units b.units := by
  by_cases hzero : a.isZero
  · rw [gcd_of_isZero b hzero, units_of_isZero hzero, Nat.gcd_zero_left]
    exact ⟨hb, rfl⟩
  rcases h with h | h | ⟨hna, hnb⟩
  · exact absurd h hzero
  · rw [gcd_stops_before (by simpa using hzero) (isPositive_of_isZero h), units_of_isZero h, Nat.gcd_zero_right]
    exact ⟨ha, rfl⟩
  · obtain ⟨hfinite, -, hunits⟩ := measures_iff.1 ((measures_units ⟨ha, hna⟩).gcd (measures_units ⟨hb, hnb⟩))
    exact ⟨hfinite, hunits⟩

/-- The loop finds the greatest common divisor, or stops with one of the two numbers. -/
theorem units_gcd_or_eq :
    (gcd a b).isFinite ∧ (gcd a b).units = Nat.gcd a.units b.units ∨ gcd a b = a ∨ gcd a b = b := by
  cases hzero : a.isZero with
  | true => exact .inl (units_gcd ha hb (.inl hzero))
  | false =>
    cases hpositive : b.isPositive with
    | false => exact .inr (.inl (gcd_stops_before hzero hpositive))
    | true =>
      cases hbelow : a.lt zero with
      | true => exact .inr (.inr (gcd_stops_behind hbelow hpositive))
      | false =>
        refine .inl (units_gcd ha hb (.inr (.inr ⟨hbelow, ?_⟩)))
        rw [← Bool.not_eq_true]
        exact fun h => absurd hpositive (by simp [isPositive_of_lt_zero h])

/-- **Signs do not matter exactly where the result divides both numbers.** So it is where one of them is zero or neither
is below zero. Otherwise the loop stops at a number below zero: the result is the first number if the second one is
below zero, and the second one if only the first is. -/
theorem gcd_abs_iff :
    (gcd a b).isFinite ∧
      ((gcd a b).abs.ieeeEq (gcd a.abs b.abs) ↔ Divides (gcd a b) a ∧ Divides (gcd a b) b) ∧
      (a.isZero ∨ b.isZero ∨ a.lt zero = false ∧ b.lt zero = false →
        (gcd a b).abs.ieeeEq (gcd a.abs b.abs)) ∧
      (a.isZero = false → b.lt zero → gcd a b = a) ∧ (a.lt zero → zero.lt b → gcd a b = b) := by
  have hcases := units_gcd_or_eq ha hb
  have hfinite : (gcd a b).isFinite := by
    rcases hcases with ⟨h, -⟩ | h | h
    · exact h
    · rwa [h]
    · rwa [h]
  refine ⟨hfinite, ?_, fun h => (abs_ieeeEq_gcd_abs_iff ha hb hfinite).2 (units_gcd ha hb h).2,
    fun hzero hbelow => gcd_stops_before hzero (isPositive_of_lt_zero hbelow),
    fun hbelow habove => gcd_stops_behind hbelow ((isPositive_eq_zero_lt b).trans habove)⟩
  rw [abs_ieeeEq_gcd_abs_iff ha hb hfinite, divides_iff hfinite ha, divides_iff hfinite hb]
  constructor
  · intro hunits
    rw [hunits]
    exact ⟨Nat.gcd_dvd_left .., Nat.gcd_dvd_right ..⟩
  · rintro ⟨hleft, hright⟩
    rcases hcases with ⟨-, h⟩ | h | h
    · exact h
    · rw [h] at hright ⊢
      exact (Nat.gcd_eq_left hright).symm
    · rw [h] at hleft ⊢
      exact (Nat.gcd_eq_right hleft).symm

end

/-- Of minus six and three the result is three, in either order, which divides both. -/
theorem gcd_abs_iff_minusSix :
    (ofInt (-6)).isFinite ∧ (ofInt 3).isFinite ∧ (ofInt (-6)).lt zero ∧ zero.lt (ofInt 3) ∧
      gcd (ofInt (-6)) (ofInt 3) = ofInt 3 ∧ (ofInt 3).isZero = false ∧ gcd (ofInt 3) (ofInt (-6)) = ofInt 3 ∧
      (gcd (ofInt (-6)) (ofInt 3)).abs.ieeeEq (gcd (ofInt (-6)).abs (ofInt 3).abs) ∧
      zero.isZero ∧ (gcd zero (ofInt (-6))).abs.ieeeEq (gcd zero.abs (ofInt (-6)).abs) := by
  have hsix : (ofInt (-6)).isFinite ∧ (ofInt (-6)).lt zero := by decide +kernel
  have hthree : (ofInt 3).isFinite ∧ zero.lt (ofInt 3) ∧ (ofInt 3).isZero = false := by decide +kernel
  obtain ⟨-, hiff, -, -, hbehind⟩ := gcd_abs_iff hsix.1 hthree.1
  obtain ⟨-, -, -, hbefore, -⟩ := gcd_abs_iff hthree.1 hsix.1
  have hzero := (gcd_abs_iff (a := zero) rfl hsix.1).2.2.1 (.inl rfl)
  have hgcd := hbehind hsix.2 hthree.2.1
  have hdivides :
      Divides (gcd (ofInt (-6)) (ofInt 3)) (ofInt (-6)) ∧ Divides (gcd (ofInt (-6)) (ofInt 3)) (ofInt 3) := by
    rw [hgcd]
    exact ⟨⟨-2, by decide +kernel⟩, 1, by decide +kernel⟩
  exact ⟨hsix.1, hthree.1, hsix.2, hthree.2.1, hgcd, hthree.2.2, hbefore hthree.2.2 hsix.2, hiff.2 hdivides, rfl, hzero⟩

/-- **Signs matter.** Of six and minus four the result is six, which does not divide minus four; of six and four it is
two. -/
theorem gcd_six_minusFour :
    (ofInt 6).isFinite ∧ (ofInt (-4)).isFinite ∧ gcd (ofInt 6) (ofInt (-4)) = ofInt 6 ∧
      gcd (ofInt 6).abs (ofInt (-4)).abs = ofInt 2 ∧
      (gcd (ofInt 6) (ofInt (-4))).abs.ieeeEq (gcd (ofInt 6).abs (ofInt (-4)).abs) = false ∧
      ¬ Divides (gcd (ofInt 6) (ofInt (-4))) (ofInt (-4)) := by
  have hgcd : gcd (ofInt 6) (ofInt (-4)) = ofInt 6 := by decide +kernel
  have habs : gcd (ofInt 6).abs (ofInt (-4)).abs = ofInt 2 := by decide +kernel
  refine ⟨by decide +kernel, by decide +kernel, hgcd, habs, by rw [hgcd, habs]; decide +kernel, ?_⟩
  rw [hgcd, divides_iff (by decide +kernel) (by decide +kernel)]
  decide +kernel

end Calculator.Binary64
