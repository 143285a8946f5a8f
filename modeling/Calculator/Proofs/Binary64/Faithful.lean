/-
An integer and a fraction, each rounded to a number, and their sum rounded again.

Three roundings may miss the nearest number, but not by much: no number lies between the exact sum and the one that is
found. Where integers are numbers, the integer of every number between two integers is exact, and what is left of it is
compared with the fraction alone. Where they are not, a step is at least two, and a fraction below one cannot lift a sum
over its middle.

- `joinUnits`: the three roundings, on counts of units;
- `le_joinUnits`, `joinUnits_le`: a magnitude not above the exact sum is not above what is found, and conversely;
- `unitLimit_le_joinUnits_iff`: the sum is out of range exactly where the one rounding would leave the range;
- `joinUnits_eq`: of parts that need no rounding, the sum is rounded once;
- `IsFaithful`: no number lies between a rational and a number.
-/
import Calculator.Proofs.Binary64.Nearest
import Calculator.Proofs.Numeral.Expansion

namespace Calculator

open Binary64

/-! ## One rounding -/

section

variable {num den units : Nat} (hden : 0 < den) (h : Representable units)

include hden h

theorem le_roundUnits_of_le (hle : units * den ≤ num) : units ≤ roundUnits num den := by
  rw [← roundUnits_of_representable hden h]
  exact roundUnits_mono hden hden (Nat.mul_le_mul_right _ hle)

theorem roundUnits_le_of_le (hle : num ≤ units * den) : roundUnits num den ≤ units := by
  rw [← roundUnits_of_representable hden h]
  exact roundUnits_mono hden hden (Nat.mul_le_mul_right _ hle)

end

section

variable {units n : Nat} (h : Representable units)

include h

theorem le_roundUnits_one (hle : units ≤ n) : units ≤ roundUnits n 1 :=
  le_roundUnits_of_le Nat.one_pos h (by rwa [Nat.mul_one])

theorem roundUnits_one_le (hle : n ≤ units) : roundUnits n 1 ≤ units :=
  roundUnits_le_of_le Nat.one_pos h (by rwa [Nat.mul_one])

theorem roundUnits_one : roundUnits units 1 = units :=
  Nat.le_antisymm (roundUnits_one_le h (Nat.le_refl _)) (le_roundUnits_one h (Nat.le_refl _))

end

/-- Quotients that are equal are rounded alike. -/
theorem roundUnits_congr {num den num' den' : Nat} (hden : 0 < den) (hden' : 0 < den')
    (h : num * den' = num' * den) : roundUnits num den = roundUnits num' den' :=
  Nat.le_antisymm (roundUnits_mono hden hden' (Nat.le_of_eq h)) (roundUnits_mono hden' hden (Nat.le_of_eq h.symm))

/-- What is added to a magnitude of 53 bits is lost again if it is less than half a step, or half a step and the last
of the bits is zero. -/
theorem roundUnits_add_lt {k e b : Nat} (hk : 2 ^ 52 ≤ k) (hk' : k < 2 ^ 53) (hb : 2 * b ≤ 2 ^ e)
    (heven : 2 * b = 2 ^ e → k % 2 = 0) : roundUnits (k * 2 ^ e + b) 1 = k * 2 ^ e := by
  have hstep : 0 < 2 ^ e := Nat.two_pow_pos e
  have hlt : b < 2 ^ e := by omega
  have hexcess : excess (k * 2 ^ e + b) = e := by
    refine excess_eq ?_ ?_
    · calc 2 ^ (52 + e) = 2 ^ 52 * 2 ^ e := Nat.pow_add ..
        _ ≤ k * 2 ^ e := Nat.mul_le_mul_right _ hk
        _ ≤ k * 2 ^ e + b := Nat.le_add_right ..
    · calc k * 2 ^ e + b < k * 2 ^ e + 2 ^ e := Nat.add_lt_add_left hlt _
        _ = (k + 1) * 2 ^ e := (Nat.succ_mul ..).symm
        _ ≤ 2 ^ 53 * 2 ^ e := Nat.mul_le_mul_right _ hk'
        _ = 2 ^ (e + 53) := by rw [Nat.add_comm, Nat.pow_add]
  have hquotient : (k * 2 ^ e + b) / 2 ^ e = k := by
    rw [Nat.mul_comm, Nat.mul_add_div hstep, Nat.div_eq_of_lt hlt, Nat.add_zero]
  have hrest : (k * 2 ^ e + b) % 2 ^ e = b := by rw [Nat.mul_comm, Nat.mul_add_mod, Nat.mod_eq_of_lt hlt]
  have hround : roundDiv (k * 2 ^ e + b) (2 ^ e) = k := by
    unfold roundDiv
    simp only [hquotient, hrest]
    split
    · rfl
    · rw [if_neg (Nat.not_lt.2 hb), heven (by omega), Nat.add_zero]
  unfold roundUnits
  simp only [Nat.div_one, Nat.one_mul, hexcess, hround]

/-- The same for what rounding gives, which may be the first magnitude on the next grid. -/
theorem roundUnits_add {k e b : Nat} (hk : 2 ^ 52 ≤ k) (hk' : k ≤ 2 ^ 53) (hb : 2 * b ≤ 2 ^ e)
    (heven : 2 * b = 2 ^ e → k % 2 = 0) : roundUnits (k * 2 ^ e + b) 1 = k * 2 ^ e := by
  rcases Nat.lt_or_eq_of_le hk' with hlt | rfl
  · exact roundUnits_add_lt hk hlt hb heven
  · have hpow : 2 ^ 53 * 2 ^ e = 2 ^ 52 * 2 ^ (e + 1) := by rw [← Nat.pow_add, ← Nat.pow_add]; congr 1; omega
    have hdouble : 2 ^ (e + 1) = 2 ^ e + 2 ^ e := by rw [Nat.pow_succ, Nat.mul_two]
    have hstep : 0 < 2 ^ e := Nat.two_pow_pos e
    rw [hpow]
    exact roundUnits_add_lt (Nat.le_refl _) (by decide) (by omega) (fun h => absurd h (by omega))

/-! ## Three roundings -/

/-- an integer and a fraction, each rounded, and the sum rounded again -/
def joinUnits (whole num den : Nat) : Nat := roundUnits (roundUnits (whole * unit) 1 + roundUnits (num * unit) den) 1

theorem representable_joinUnits {whole num den : Nat} (h : joinUnits whole num den < unitLimit) :
    Representable (joinUnits whole num den) := representable_roundUnits h

/-- A fraction below one is not rounded above one. -/
theorem roundUnits_fraction_le {num den : Nat} (hden : 0 < den) (hnum : num < den) :
    roundUnits (num * unit) den ≤ unit := by
  refine roundUnits_le_of_le hden representable_unit ?_
  rw [Nat.mul_comm unit]
  exact Nat.mul_le_mul_right _ (Nat.le_of_lt hnum)

/-- The integer below a magnitude is one, and what is left of it is the remainder. -/
theorem exists_parts {whole units : Nat} (h : Representable units) (habove : whole * unit ≤ units)
    (hlt : units < (whole + 1) * unit) :
    ∃ rest, Representable rest ∧ Representable (whole * unit) ∧ units = whole * unit + rest := by
  have hquotient : units / unit = whole := Nat.div_eq_of_lt_le habove hlt
  refine ⟨units % unit, representable_fraction h, hquotient ▸ representable_whole h, ?_⟩
  rw [← hquotient]
  exact (Nat.div_add_mod' units unit).symm

/-- An integer that is not a number is on a grid with a step of at least two. -/
theorem two_unit_le_of_not_onGrid {whole : Nat} (h : ¬ OnGrid (whole * unit)) :
    2 * unit ≤ 2 ^ excess (whole * unit) := by
  have hcoarse : unitPlaces < excess (whole * unit) := by
    refine Nat.lt_of_not_le fun hle => h ?_
    exact Nat.dvd_mul_left_of_dvd (Nat.pow_dvd_pow 2 hle) _
  calc 2 * unit = 2 ^ (unitPlaces + 1) := by rw [Nat.pow_succ, Nat.mul_comm]; rfl
    _ ≤ 2 ^ excess (whole * unit) := Nat.pow_le_pow_right Nat.two_pos hcoarse

/-- An integer that is not a number is rounded to one that a fraction below one does not change. -/
theorem roundUnits_whole_add {whole b : Nat} (h : ¬ OnGrid (whole * unit)) (hb : b ≤ unit) :
    roundUnits (roundUnits (whole * unit) 1 + b) 1 = roundUnits (whole * unit) 1 := by
  have hstep := two_unit_le_of_not_onGrid h
  have hpos : 0 < excess (whole * unit / 1) := by
    rw [Nat.div_one]
    refine Nat.pos_of_ne_zero fun hzero => h ?_
    rw [OnGrid, hzero, Nat.pow_zero]
    exact Nat.one_dvd _
  have hge := two_pow_le_roundUnits hpos
  have hle := roundUnits_lt (whole * unit) 1
  have hround : roundUnits (whole * unit) 1 = roundDiv (whole * unit) (2 ^ excess (whole * unit)) *
      2 ^ excess (whole * unit) := by
    unfold roundUnits
    simp only [Nat.div_one, Nat.one_mul]
  rw [Nat.div_one, hround] at hge hle
  rw [hround]
  refine roundUnits_add ?_ ?_ (Nat.le_trans (Nat.mul_le_mul_left 2 hb) hstep) ?_
  · exact Nat.le_of_mul_le_mul_right (by rwa [← Nat.pow_add]) (Nat.two_pow_pos (excess (whole * unit)))
  · exact Nat.le_of_mul_le_mul_right (by rwa [← Nat.pow_add, Nat.add_comm 53]) (Nat.two_pow_pos (excess (whole * unit)))
  · -- A step of two, and the integer is in the middle of it: it was rounded to even.
    intro hhalf
    have htwo : 2 ^ excess (whole * unit) = 2 * unit := Nat.le_antisymm (hhalf ▸ Nat.mul_le_mul_left 2 hb) hstep
    have hodd : whole % 2 = 1 := by
      refine (Nat.mod_two_eq_zero_or_one whole).resolve_left fun heven => h ?_
      rw [OnGrid, htwo]
      exact Nat.mul_dvd_mul_right (Nat.dvd_of_mod_eq_zero heven) _
    have hrest : whole * unit % (2 * unit) = unit := by rw [Nat.mul_mod_mul_right, hodd, Nat.one_mul]
    rw [htwo]
    rcases roundDiv_cases (whole * unit) (2 * unit) with ⟨-, hlt⟩ | ⟨-, hlt⟩ | ⟨-, heven, -⟩
    · rw [hrest] at hlt
      exact absurd hlt (Nat.lt_irrefl _)
    · rw [hrest] at hlt
      exact absurd hlt (Nat.lt_irrefl _)
    · exact heven

section

variable {whole num den units : Nat} (hden : 0 < den) (hnum : num < den) (h : Representable units)

include hden hnum h

/-- **A magnitude that is not above the exact sum is not above what is found.** -/
theorem le_joinUnits (hle : units * den ≤ (whole * den + num) * unit) : units ≤ joinUnits whole num den := by
  refine le_roundUnits_one h ?_
  rcases Nat.le_total units (whole * unit) with hbelow | habove
  · calc units ≤ roundUnits (whole * unit) 1 := le_roundUnits_one h hbelow
      _ ≤ _ := Nat.le_add_right ..
  · have hlt : units < (whole + 1) * unit := by
      refine Nat.lt_of_mul_lt_mul_right (a := den) (Nat.lt_of_le_of_lt hle ?_)
      rw [Nat.mul_right_comm, Nat.succ_mul]
      exact Nat.mul_lt_mul_of_pos_right (Nat.add_lt_add_left hnum _) unit_pos
    obtain ⟨rest, hrest, hwhole, rfl⟩ := exists_parts h habove hlt
    have hfraction : rest * den ≤ num * unit := by
      rw [Nat.add_mul, Nat.add_mul, Nat.mul_right_comm] at hle
      exact Nat.le_of_add_le_add_left hle
    rw [roundUnits_one hwhole]
    exact Nat.add_le_add_left (le_roundUnits_of_le hden hrest hfraction) _

/-- **A magnitude that is not below the exact sum is not below what is found.** -/
theorem joinUnits_le (hle : (whole * den + num) * unit ≤ units * den) : joinUnits whole num den ≤ units := by
  have hwhole : whole * unit ≤ units := by
    refine Nat.le_of_mul_le_mul_right (Nat.le_trans ?_ hle) hden
    rw [Nat.mul_right_comm]
    exact Nat.mul_le_mul_right _ (Nat.le_add_right ..)
  have hbelow := roundUnits_fraction_le hden hnum
  rcases Nat.lt_or_ge units ((whole + 1) * unit) with hlt | hge
  · obtain ⟨rest, hrest, hexact, rfl⟩ := exists_parts h hwhole hlt
    have hfraction : num * unit ≤ rest * den := by
      rw [Nat.add_mul, Nat.add_mul, Nat.mul_right_comm] at hle
      exact Nat.le_of_add_le_add_left hle
    refine roundUnits_one_le h ?_
    rw [roundUnits_one hexact]
    exact Nat.add_le_add_left (roundUnits_le_of_le hden hrest hfraction) _
  · by_cases hgrid : OnGrid (whole * unit)
    · refine roundUnits_one_le h ?_
      rw [roundUnits_one ⟨Nat.lt_of_le_of_lt hwhole h.1, hgrid⟩]
      calc whole * unit + roundUnits (num * unit) den ≤ whole * unit + unit := Nat.add_le_add_left hbelow _
        _ = (whole + 1) * unit := (Nat.succ_mul ..).symm
        _ ≤ units := hge
    · rw [joinUnits, roundUnits_whole_add hgrid hbelow]
      exact roundUnits_one_le h hwhole

end

/-- Of parts that need no rounding, only the sum is rounded. -/
theorem joinUnits_eq {whole num den units : Nat} (hden : 0 < den) (hwhole : Representable (whole * unit))
    (hunits : Representable units) (hfraction : num * unit = units * den) :
    joinUnits whole num den = roundUnits ((whole * den + num) * unit) den := by
  rw [joinUnits, roundUnits_one hwhole, hfraction, roundUnits_of_representable hden hunits]
  refine roundUnits_congr Nat.one_pos hden ?_
  rw [Nat.mul_one, Nat.add_mul, Nat.add_mul, ← hfraction, Nat.mul_right_comm]

/-! ## Out of range -/

/-- What is out of range stays out of range. -/
theorem unitLimit_le_roundUnits_one {units : Nat} (h : unitLimit ≤ units) : unitLimit ≤ roundUnits units 1 :=
  unitLimit_le_roundUnits Nat.one_pos (by rwa [Nat.mul_one])

theorem two_pow_le_largest : 2 ^ (52 + (unitPlaces + 971)) ≤ largest := by decide +kernel

theorem unitLimit_eq : unitLimit = 2 ^ (unitPlaces + 971 + 53) := by decide +kernel

theorem largest_add_step : largest + 2 ^ (unitPlaces + 971) = unitLimit := by decide +kernel

/-- Multiples that are not equal are a whole step apart. -/
theorem add_le_of_dvd {m n step : Nat} (hm : step ∣ m) (hn : step ∣ n) (h : m < n) : m + step ≤ n := by
  have hle := Nat.le_of_dvd (Nat.sub_pos_of_lt h) (Nat.dvd_sub hn hm)
  omega

/-- No magnitude is greater than the largest one: the next one on its grid is out of range. -/
theorem le_largest {units : Nat} (h : Representable units) : units ≤ largest := by
  refine Nat.le_of_not_lt fun hlt => Nat.not_le.2 h.1 ?_
  have hexcess : excess units = unitPlaces + 971 :=
    excess_eq (Nat.le_trans two_pow_le_largest (Nat.le_of_lt hlt)) (unitLimit_eq ▸ h.1)
  rw [← largest_add_step]
  exact add_le_of_dvd (Nat.dvd_mul_left ..) (hexcess ▸ h.2) hlt

theorem largest_add_unit_lt : largest + unit < overflow * unit := by decide +kernel

/-- Only the integer decides whether a sum is out of range: a fraction below one does not reach the middle. -/
theorem unitLimit_le_joinUnits_iff {whole num den : Nat} (hden : 0 < den) (hnum : num < den) :
    unitLimit ≤ joinUnits whole num den ↔ overflow ≤ whole := by
  have hfraction := roundUnits_fraction_le hden hnum
  have hwhole : unitLimit ≤ roundUnits (whole * unit) 1 ↔ overflow ≤ whole := by
    rw [unitLimit_le_roundUnits_iff Nat.one_pos, Nat.mul_one]
    exact Nat.mul_le_mul_right_iff unit_pos
  by_cases hgrid : OnGrid (whole * unit)
  · constructor
    · intro h
      refine Nat.le_of_not_lt fun hlt => ?_
      have hrange : whole * unit < unitLimit :=
        Nat.lt_of_lt_of_le (Nat.mul_lt_mul_of_pos_right hlt unit_pos) overflow_unit_le
      rw [joinUnits, roundUnits_one ⟨hrange, hgrid⟩, unitLimit_le_roundUnits_iff Nat.one_pos, Nat.mul_one] at h
      exact Nat.not_le.2 largest_add_unit_lt (Nat.le_trans h (Nat.add_le_add (le_largest ⟨hrange, hgrid⟩) hfraction))
    · intro h
      exact unitLimit_le_roundUnits_one (Nat.le_trans (hwhole.2 h) (Nat.le_add_right ..))
  · rw [joinUnits, roundUnits_whole_add hgrid hfraction, hwhole]

/-! ## Numbers -/

namespace Binary64

theorem ofUnits_eq_infinite_iff {units : Nat} (h : units < unitLimit → Representable units) :
    ofUnits false units = .infinite false ↔ unitLimit ≤ units := by
  refine ⟨fun heq => Nat.le_of_not_lt fun hlt => ?_, ofUnits_of_le⟩
  rw [ofUnits_of_representable false (h hlt)] at heq
  cases heq

theorem ofUnits_roundUnits_one {units : Nat} (h : units < unitLimit → Representable units) :
    ofUnits false (roundUnits units 1) = ofUnits false units := by
  rcases Nat.lt_or_ge units unitLimit with hlt | hge
  · rw [roundUnits_one (h hlt)]
  · rw [ofUnits_of_le hge, ofUnits_of_le (unitLimit_le_roundUnits_one hge)]

/-- The sum of a number, or an infinity, and a number is rounded once. -/
theorem ofUnits_add_finite {u v : Nat} (hu : u < unitLimit → Representable u) (hv : Representable v) :
    ofUnits false u + .finite false v hv = ofUnits false (roundUnits (u + v) 1) := by
  rcases Nat.lt_or_ge u unitLimit with hlt | hge
  · rw [ofUnits_of_representable false (hu hlt), finite_add_finite]
    rfl
  · rw [ofUnits_of_le hge, ofUnits_of_le (unitLimit_le_roundUnits_one (Nat.le_trans hge (Nat.le_add_right ..)))]
    rfl

/-- Without a fraction, only the integer is rounded. -/
theorem ofUnits_joinUnits_zero (whole den : Nat) : ofUnits false (joinUnits whole 0 den) = ofRatio false whole 1 := by
  have hzero : roundUnits (0 * unit) den = 0 := by
    rw [Nat.zero_mul]
    unfold roundUnits roundDiv
    simp
  rw [joinUnits, hzero, Nat.add_zero, ofUnits_roundUnits_one representable_roundUnits]
  rfl

/-- Of zero and a fraction, only the fraction is rounded. -/
theorem ofUnits_joinUnits_zero_left (num den : Nat) : ofUnits false (joinUnits 0 num den) = ofRatio false num den := by
  rw [joinUnits, Nat.zero_mul, roundUnits_one representable_zero, Nat.zero_add,
    ofUnits_roundUnits_one representable_roundUnits]
  rfl

/-- A number that is not below zero is a magnitude. -/
theorem exists_magnitude {x : Binary64} (hx : x.isFinite) (h : 0 ≤ x.toRat) :
    ∃ u, Representable u ∧ x.toRat = (u : ℚ) / unit := by
  obtain ⟨s, u, hu, rfl⟩ := exists_finite_of_isFinite hx
  cases s with
  | false => exact ⟨u, hu, toRat_positive hu⟩
  | true =>
    have hquotient : (0 : ℚ) ≤ u / unit := div_nonneg (Nat.cast_nonneg _) (Nat.cast_nonneg _)
    have hzero : (finite true u hu).toRat = 0 := by
      rw [toRat_negative] at h ⊢
      linarith
    exact ⟨0, representable_zero, by rw [hzero, Nat.cast_zero, zero_div]⟩

/-- No number lies strictly between a rational and what it is rounded to. -/
structure IsFaithful (q : ℚ) (x : Binary64) : Prop where
  ne_nan : x ≠ .nan
  not_lt : ∀ y : Binary64, y.isFinite → y.toRat ≤ q → x.lt y = false
  not_gt : ∀ y : Binary64, y.isFinite → q ≤ y.toRat → y.lt x = false

/-- It is enough to compare magnitudes, for a rational that is not below zero. -/
theorem isFaithful_ofUnits {q : ℚ} (hq : 0 ≤ q) {units : Nat} (hunits : units < unitLimit → Representable units)
    (hbelow : ∀ u, Representable u → (u : ℚ) / unit ≤ q → u ≤ units)
    (habove : ∀ u, Representable u → q ≤ (u : ℚ) / unit → units ≤ u) : IsFaithful q (ofUnits false units) := by
  have hmono {u v : Nat} (h : u ≤ v) : (u : ℚ) / unit ≤ v / unit :=
    (div_le_div_iff_of_pos_right cast_unit_pos).2 (Nat.cast_le.2 h)
  rcases Nat.lt_or_ge units unitLimit with hrange | hrange
  · rw [ofUnits_of_representable false (hunits hrange)]
    refine ⟨Binary64.noConfusion, fun y hy hle => ?_, fun y hy hle => ?_⟩
    · rw [lt_eq_false_iff_toRat rfl hy, toRat_positive]
      rcases lt_or_ge y.toRat 0 with hnegative | hnonneg
      · exact le_trans hnegative.le (div_nonneg (Nat.cast_nonneg _) (Nat.cast_nonneg _))
      · obtain ⟨u, hu, heq⟩ := exists_magnitude hy hnonneg
        rw [heq] at hle ⊢
        exact hmono (hbelow u hu hle)
    · obtain ⟨u, hu, heq⟩ := exists_magnitude hy (le_trans hq hle)
      rw [lt_eq_false_iff_toRat hy rfl, toRat_positive, heq]
      rw [heq] at hle
      exact hmono (habove u hu hle)
  · rw [ofUnits_of_le hrange]
    refine ⟨Binary64.noConfusion, fun y hy _ => ?_, fun y hy hle => ?_⟩
    · obtain ⟨s, u, hu, rfl⟩ := exists_finite_of_isFinite hy
      rfl
    · obtain ⟨u, hu, heq⟩ := exists_magnitude hy (le_trans hq hle)
      rw [heq] at hle
      exact absurd (habove u hu hle) (Nat.not_le.2 (Nat.lt_of_lt_of_le hu.1 hrange))

end Binary64

end Calculator
