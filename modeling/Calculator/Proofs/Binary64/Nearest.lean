/-
Rounding gives the nearest number, a half the one whose significand is even.

On one grid a rounded quotient is half a step away at most, and a whole step from its neighbours. A magnitude on a finer
grid is below the power of two at which the grid of the quotient begins, which is nearer. Distances from a quotient are
multiplied by its denominator, so that they stay naturals.

- `roundUnits_nearest`: no magnitude is nearer to a quotient than the one that it is rounded to;
- `unitLimit_le_roundUnits_iff`: a quotient is rounded out of range from the middle between the largest magnitude and
  `2 ^ 1024` on;
- `IsNearest`, `isNearest_ofRatio`: both, for numbers and rationals of either sign.
-/
import Calculator.Proofs.Binary64.Rational
import Calculator.Proofs.Binary64.Rounding
import Mathlib.Algebra.Order.Field.Basic

namespace Calculator

open Binary64

/-- how far `n` is from `num / den`, in parts of `den` -/
def gap (num den : Nat) (n : Int) : Nat := (n * den - num).natAbs

/-! ## One grid -/

/-- The three ways to round: down, up, and from the middle to the even neighbour. -/
theorem roundDiv_cases (num den : Nat) :
    roundDiv num den = num / den ∧ 2 * (num % den) < den ∨
      roundDiv num den = num / den + 1 ∧ den < 2 * (num % den) ∨
      2 * (num % den) = den ∧ roundDiv num den % 2 = 0 ∧
        (roundDiv num den = num / den ∨ roundDiv num den = num / den + 1) := by
  unfold roundDiv
  simp only
  repeat' split
  all_goals omega

/-- No other integer is nearer to a quotient than the one that it is rounded to; if one is as near, that is even. -/
theorem roundDiv_nearest {num den : Nat} (hden : 0 < den) {n : Int} (hne : n ≠ roundDiv num den) :
    gap num den (roundDiv num den) < gap num den n ∨
      gap num den (roundDiv num den) = gap num den n ∧ roundDiv num den % 2 = 0 := by
  have hparts : ((num / den : Nat) : Int) * den + (num % den : Nat) = num := by exact_mod_cast Nat.div_add_mod' num den
  have hlt : num % den < den := Nat.mod_lt num hden
  have hsucc (m : Int) : (m + 1) * den = m * den + den := by rw [Int.add_mul, Int.one_mul]
  have hle {m m' : Int} (h : m ≤ m') : m * den ≤ m' * den := Int.mul_le_mul_of_nonneg_right h (Int.natCast_nonneg _)
  -- Integers other than the two neighbours are a whole step farther away than one of them.
  have hcases : n * den + den ≤ (num / den : Nat) * den ∨ n = (num / den : Nat) ∨ n = (num / den : Nat) + 1 ∨
      (num / den : Nat) * den + den + den ≤ n * (den : Int) := by
    rcases Int.lt_trichotomy n (num / den : Nat) with hbelow | heq | habove
    · exact .inl (hsucc n ▸ hle hbelow)
    · exact .inr (.inl heq)
    · rcases Int.lt_or_eq_of_le habove with hfar | hnext
      · exact .inr (.inr (.inr (by rw [← hsucc, ← hsucc]; exact hle hfar)))
      · exact .inr (.inr (.inl hnext.symm))
  unfold gap
  rcases roundDiv_cases num den with ⟨hround, hhalf⟩ | ⟨hround, hhalf⟩ | ⟨hhalf, heven, hround | hround⟩
  all_goals
    simp only [hround, Int.natCast_add, Int.natCast_one, hsucc] at hne ⊢
    rcases hcases with h | rfl | rfl | h
    all_goals simp only [hsucc] at *
    all_goals omega

/-! ## Magnitudes -/

/-- A count of units is on the grid of magnitudes of its size; it may be out of range. -/
def OnGrid (units : Nat) : Prop := 2 ^ excess units ∣ units

/-- the 53 significant bits of a magnitude, as an integer -/
def significand (units : Nat) : Nat := units / 2 ^ excess units

/-- A magnitude is on every coarser grid on which it is not too small for the 53 bits. -/
theorem OnGrid.dvd_or_lt {units : Nat} (h : OnGrid units) (e : Nat) :
    2 ^ e ∣ units ∨ 0 < e ∧ units < 2 ^ (52 + e) := by
  rcases Nat.lt_or_ge (excess units) e with hcoarse | hfine
  · refine .inr ⟨Nat.zero_lt_of_lt hcoarse, Nat.lt_of_lt_of_le Nat.lt_log2_self (Nat.pow_le_pow_right Nat.two_pos ?_)⟩
    unfold excess at hcoarse
    omega
  · exact .inl (Nat.dvd_trans (Nat.pow_dvd_pow 2 hfine) h)

theorem excess_eq {units e : Nat} (hle : 2 ^ (52 + e) ≤ units) (hlt : units < 2 ^ (e + 53)) : excess units = e := by
  have hlog : 52 + e ≤ units.log2 := (Nat.le_log2 (Nat.ne_of_gt (Nat.lt_of_lt_of_le (Nat.two_pow_pos _) hle))).2 hle
  refine Nat.le_antisymm (excess_le hlt) ?_
  unfold excess
  omega

/-- What rounding gives keeps its last bit as a magnitude, also where it is the first one on a coarser grid. -/
theorem even_significand {num den : Nat} (h : roundDiv num (den * 2 ^ excess (num / den)) % 2 = 0) :
    Even (significand (roundUnits num den)) := by
  have hle := roundUnits_lt num den
  have hge := @two_pow_le_roundUnits num den
  have hround : roundUnits num den =
      roundDiv num (den * 2 ^ excess (num / den)) * 2 ^ excess (num / den) := rfl
  generalize roundDiv num (den * 2 ^ excess (num / den)) = k at h hround
  generalize excess (num / den) = e at hle hge hround
  generalize roundUnits num den = u at hle hge hround ⊢
  rcases Nat.lt_or_eq_of_le hle with hlt | heq
  · have hexcess : excess u = e := by
      rcases Nat.eq_zero_or_pos e with rfl | hpos
      · exact Nat.le_zero.1 (excess_le hlt)
      · exact excess_eq (hge hpos) hlt
    rw [significand, hexcess, hround, Nat.mul_div_cancel _ (Nat.two_pow_pos _)]
    exact Nat.even_iff.2 h
  · have hexcess : excess u = e + 1 := by rw [heq, excess, Nat.log2_two_pow]; omega
    have hpow : 2 ^ (e + 53) = 2 ^ 52 * 2 ^ (e + 1) := by rw [← Nat.pow_add]; congr 1; omega
    rw [significand, hexcess, heq, hpow, Nat.mul_div_cancel _ (Nat.two_pow_pos _)]
    decide

section

variable {num den : Nat} (hden : 0 < den) {n : Int}

include hden

/-- On the grid of a quotient, nothing is nearer than what it is rounded to. -/
theorem roundUnits_nearest_of_dvd (hdvd : ((2 ^ excess (num / den) : Nat) : Int) ∣ n) (hne : n ≠ roundUnits num den) :
    gap num den (roundUnits num den) < gap num den n ∨
      gap num den (roundUnits num den) = gap num den n ∧ Even (significand (roundUnits num den)) := by
  have hscale (m : Int) : gap num den (m * (2 ^ excess (num / den) : Nat)) =
      gap num (den * 2 ^ excess (num / den)) m := by
    unfold gap
    rw [Int.natCast_mul, Int.mul_assoc, Int.mul_comm ((2 ^ excess (num / den) : Nat) : Int) den]
  have hround : ((roundUnits num den : Nat) : Int) =
      (roundDiv num (den * 2 ^ excess (num / den)) : Nat) * (2 ^ excess (num / den) : Nat) := Int.natCast_mul _ _
  obtain ⟨m, rfl⟩ := hdvd
  rw [Int.mul_comm _ m] at hne ⊢
  rw [hround] at hne ⊢
  rw [hscale, hscale]
  have hm : m ≠ (roundDiv num (den * 2 ^ excess (num / den)) : Nat) := fun heq => hne (by rw [heq])
  rcases roundDiv_nearest (Nat.mul_pos hden (Nat.two_pow_pos _)) hm with hlt | ⟨heq, heven⟩
  · exact .inl hlt
  · exact .inr ⟨heq, even_significand heven⟩

/-- **Rounding gives the nearest magnitude.** No other magnitude is nearer to a quotient than the one that it is rounded
to; if one is as near, that has an even significand. -/
theorem roundUnits_nearest (hgrid : OnGrid n.natAbs) (hne : n ≠ roundUnits num den) :
    gap num den (roundUnits num den) < gap num den n ∨
      gap num den (roundUnits num den) = gap num den n ∧ Even (significand (roundUnits num den)) := by
  rcases hgrid.dvd_or_lt (excess (num / den)) with hdvd | ⟨hpos, hlt⟩
  · exact roundUnits_nearest_of_dvd hden (Int.natCast_dvd.2 hdvd) hne
  -- The power of two at which the grid begins is between the magnitude and the quotient.
  have hfirst : gap num den (roundUnits num den) ≤ gap num den (2 ^ (52 + excess (num / den)) : Nat) := by
    by_cases heq : ((2 ^ (52 + excess (num / den)) : Nat) : Int) = roundUnits num den
    · rw [heq]
    · have hdvd : 2 ^ excess (num / den) ∣ 2 ^ (52 + excess (num / den)) := Nat.pow_dvd_pow 2 (Nat.le_add_left ..)
      rcases roundUnits_nearest_of_dvd hden (Int.natCast_dvd_natCast.2 hdvd) heq with h | ⟨h, -⟩
      · exact Nat.le_of_lt h
      · exact Nat.le_of_eq h
  refine .inl (Nat.lt_of_le_of_lt hfirst ?_)
  have hle : 2 ^ (52 + excess (num / den)) * den ≤ num := (Nat.le_div_iff_mul_le hden).1 (two_pow_le_div hpos)
  have hmul : n * den < (2 ^ (52 + excess (num / den)) : Nat) * (den : Int) :=
    Int.mul_lt_mul_of_pos_right (by omega) (by omega)
  have hcast : (((2 ^ (52 + excess (num / den)) : Nat) : Int)) * den ≤ num := by exact_mod_cast hle
  unfold gap
  omega

end

/-! ## Out of range -/

/-- the largest magnitude -/
def largest : Nat := (2 ^ 53 - 1) * 2 ^ (unitPlaces + 971)

/-- the middle between the largest number and the first power of two that is out of range -/
def overflow : Nat := (2 ^ 54 - 1) * 2 ^ 970

theorem largest_add_unitLimit : largest + unitLimit = 2 * (overflow * unit) := by decide +kernel

theorem largest_lt : largest < unitLimit := by decide +kernel

theorem onGrid_largest : OnGrid largest := by
  show 2 ^ excess largest ∣ largest
  decide +kernel

/-- The middle itself is rounded out of range: the significand of the largest magnitude is odd. -/
theorem roundUnits_overflow : roundUnits (overflow * unit) 1 = unitLimit := by decide +kernel

/-- What is below the middle of two naturals is nearer to the lower of them than to anything above. -/
theorem gap_lt_of_lt_middle {num den lower upper middle n : Nat} (hmiddle : lower + upper = 2 * middle)
    (hlt : lower < upper) (h : num < middle * den) (hn : upper ≤ n) : gap num den lower < gap num den n := by
  have hsum : lower * den + upper * den = 2 * (middle * den) := by rw [← Nat.add_mul, hmiddle, Nat.mul_assoc]
  have hle : lower * den ≤ upper * den := Nat.mul_le_mul_right _ (Nat.le_of_lt hlt)
  have hle' : upper * den ≤ n * den := Nat.mul_le_mul_right _ hn
  have hden : 0 < den := Nat.pos_of_ne_zero fun hzero => by simp [hzero] at h
  have hlt' : lower * den < upper * den := Nat.mul_lt_mul_of_pos_right hlt hden
  unfold gap
  rw [← Int.natCast_mul, ← Int.natCast_mul]
  omega

/-- **Overflow** begins in the middle between the largest magnitude and the first count that is out of range. -/
theorem unitLimit_le_roundUnits_iff {num den : Nat} (hden : 0 < den) :
    unitLimit ≤ roundUnits num den ↔ overflow * unit * den ≤ num := by
  constructor
  · intro h
    refine Nat.le_of_not_lt fun hlt => ?_
    have hnearer := gap_lt_of_lt_middle largest_add_unitLimit largest_lt hlt h
    have hne : (largest : Int) ≠ roundUnits num den := by
      intro heq
      exact Nat.not_le.2 largest_lt (Int.ofNat_inj.1 heq ▸ h)
    rcases roundUnits_nearest hden (n := largest) onGrid_largest hne with hfar | ⟨hfar, -⟩
    · exact Nat.lt_asymm hnearer hfar
    · exact Nat.ne_of_gt hnearer hfar
  · intro h
    rw [← roundUnits_overflow]
    exact roundUnits_mono Nat.one_pos hden (by rwa [Nat.mul_one])

theorem overflow_unit_le : overflow * unit ≤ unitLimit := by decide +kernel

/-- What is out of range is rounded out of range. -/
theorem unitLimit_le_roundUnits {num den : Nat} (hden : 0 < den) (h : unitLimit * den ≤ num) :
    unitLimit ≤ roundUnits num den := by
  rw [unitLimit_le_roundUnits_iff hden]
  exact Nat.le_trans (Nat.mul_le_mul_right _ overflow_unit_le) h

/-! ## Numbers -/

namespace Binary64

/-- the significand of a finite number -/
def bits : Binary64 → Nat
  | finite _ units _ => significand units
  | _ => 0

/-- The number that a rational is rounded to. A finite number is nearer than every other one, or as near and of an even
significand. From the middle between the largest number and `2 ^ 1024` on, it is the infinity of the sign. -/
inductive IsNearest (q : ℚ) : Binary64 → Prop where
  | finite {x : Binary64} (hx : x.isFinite) (hrange : |q| < overflow)
      (hnear : ∀ y : Binary64, y.isFinite → y.toRat ≠ x.toRat →
        |x.toRat - q| < |y.toRat - q| ∨ |x.toRat - q| = |y.toRat - q| ∧ Even x.bits) : IsNearest q x
  | infinite (hrange : overflow ≤ |q|) : IsNearest q (.infinite (decide (q < 0)))

/-- No number is nearer than the nearest one. -/
theorem IsNearest.abs_sub_le {q : ℚ} {x y : Binary64} (h : IsNearest q x) (hx : x.isFinite) (hy : y.isFinite) :
    |x.toRat - q| ≤ |y.toRat - q| := by
  cases h with
  | infinite => cases hx
  | finite _ _ hnear =>
    by_cases heq : y.toRat = x.toRat
    · rw [heq]
    · rcases hnear y hy heq with hlt | ⟨heq, -⟩
      · exact hlt.le
      · exact heq.le

theorem abs_signed {negative : Bool} {q : ℚ} (hq : 0 ≤ q) : |signed negative q| = q := by
  cases negative with
  | false => exact abs_of_nonneg hq
  | true => exact (abs_neg q).trans (abs_of_nonneg hq)

/-- Distances from a quotient are the gaps, scaled down. -/
theorem abs_sub_quotient {num den : Nat} (hden : 0 < den) (negative : Bool) (n : Int) :
    |signed negative ((n : ℚ) / unit) - signed negative ((num : ℚ) / den)| =
      (gap (num * unit) den n : ℚ) / (den * unit) := by
  have hpos : (0 : ℚ) < den * unit := mul_pos (Nat.cast_pos.2 hden) cast_unit_pos
  have hsign : |signed negative ((n : ℚ) / unit) - signed negative ((num : ℚ) / den)| =
      |(n : ℚ) / unit - num / den| := by
    cases negative with
    | false => rfl
    | true => rw [signed, signed, if_pos rfl, if_pos rfl, neg_sub_neg, abs_sub_comm]
  have hsub : (n : ℚ) / unit - num / den = ((n * den - (num * unit : Nat) : Int) : ℚ) / (den * unit) := by
    have hunit := cast_unit_pos
    have hden' : (0 : ℚ) < den := Nat.cast_pos.2 hden
    rw [Int.cast_sub, Int.cast_mul, Int.cast_natCast, Int.cast_natCast, Nat.cast_mul]
    field_simp
  rw [hsign, hsub, abs_div, abs_of_pos hpos, gap, Nat.cast_natAbs, Int.cast_abs]

theorem onGrid_of_representable {units : Nat} (h : Representable units) : OnGrid units := h.2

/-- Every finite number is a signed count of units on its grid, from whichever sign it is seen. -/
theorem exists_signed {x : Binary64} (hx : x.isFinite) (negative : Bool) :
    ∃ n : Int, OnGrid n.natAbs ∧ x.toRat = signed negative ((n : ℚ) / unit) := by
  obtain ⟨s, u, h, rfl⟩ := exists_finite_of_isFinite hx
  refine ⟨if s = negative then u else -u, ?_, ?_⟩
  · split
    · exact onGrid_of_representable h
    · rw [Int.natAbs_neg]
      exact onGrid_of_representable h
  · cases s <;> cases negative <;> simp [toRat, signed, signedUnits, neg_div]

theorem ofUnits_of_le {negative : Bool} {units : Nat} (h : unitLimit ≤ units) :
    ofUnits negative units = .infinite negative :=
  dif_neg fun hrange => Nat.not_lt.2 h hrange.1

theorem decide_signed_neg {negative : Bool} {q : ℚ} (hq : 0 < q) : decide (signed negative q < 0) = negative := by
  cases negative with
  | false => exact decide_eq_false (not_lt.2 hq.le)
  | true => exact decide_eq_true (neg_lt_zero.2 hq)

theorem abs_quotient (negative : Bool) (num den : Nat) : |signed negative ((num : ℚ) / den)| = num / den :=
  abs_signed (div_nonneg (Nat.cast_nonneg _) (Nat.cast_nonneg _))

section

variable {num den : Nat} (hden : 0 < den)

include hden

theorem overflow_le_iff : (overflow : ℚ) ≤ num / den ↔ unitLimit ≤ roundUnits (num * unit) den := by
  rw [unitLimit_le_roundUnits_iff hden, le_div_iff₀ (Nat.cast_pos.2 hden), Nat.mul_right_comm]
  constructor
  · intro h
    exact Nat.mul_le_mul_right _ (by exact_mod_cast h)
  · intro h
    exact_mod_cast Nat.le_of_mul_le_mul_right h unit_pos

/-- **A quotient is rounded to the nearest number.** -/
theorem isNearest_ofRatio (negative : Bool) :
    IsNearest (signed negative ((num : ℚ) / den)) (ofRatio negative num den) := by
  rw [ofRatio, roundedUnits]
  rcases Nat.lt_or_ge (roundUnits (num * unit) den) unitLimit with hrange | hrange
  · rw [ofUnits_of_representable negative (representable_roundUnits hrange)]
    refine .finite rfl ?_ ?_
    · rw [abs_quotient]
      exact lt_of_not_ge (mt (overflow_le_iff hden).1 (Nat.not_le.2 hrange))
    intro y hy hne
    obtain ⟨n, hgrid, hn⟩ := exists_signed hy negative
    rw [toRat_finite, hn] at hne
    have hne' : n ≠ (roundUnits (num * unit) den : Nat) := fun heq => hne (by rw [heq])
    have hscale : (0 : ℚ) < den * unit := mul_pos (Nat.cast_pos.2 hden) cast_unit_pos
    rw [toRat_finite, hn, abs_sub_quotient hden, abs_sub_quotient hden, div_lt_div_iff_of_pos_right hscale,
      div_left_inj' hscale.ne', Nat.cast_lt, Nat.cast_inj]
    exact roundUnits_nearest hden hgrid hne'
  · have hoverflow := (overflow_le_iff hden).2 hrange
    have hpos : (0 : ℚ) < num / den := lt_of_lt_of_le (Nat.cast_pos.2 (by decide +kernel)) hoverflow
    have hinfinite := IsNearest.infinite (q := signed negative ((num : ℚ) / den)) (by rwa [abs_quotient])
    rwa [decide_signed_neg hpos, ← ofUnits_of_le hrange] at hinfinite

theorem isNearest_ofRatio_positive : IsNearest ((num : ℚ) / den) (ofRatio false num den) := isNearest_ofRatio hden false

end

end Binary64

end Calculator
