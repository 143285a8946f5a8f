/-
Integers as numbers: floor, ceiling and rounding are exact.

A number with a fraction is below `2 ^ 52`, and up to `2 ^ 53` every integer is a number. So an integer that is less
than one away from a number is a number itself, at any magnitude, and the last rounding of floor, ceiling and rounding
to an integer has nothing to change. Nor is the difference rounded that is compared with a half: it is the fraction of a
magnitude.

- `representable_of_near`: an integer next to a number is a number;
- `abs_sub_ofNat`, `round_finite`: what a magnitude is above the integer below it, and rounding by it;
- `awayFromZero`: the nearest integer of a rational, a half away from zero;
- `rounding_exact`: floor, ceiling and rounding are those of rationals.
-/
import Calculator.Function
import Calculator.Proofs.Binary64.Nearest
import Calculator.Proofs.Numeral.Loops
import Mathlib.Data.Rat.Floor
import Mathlib.Data.Sign.Basic

namespace Calculator

open Binary64

/-! ## Integers -/

theorem representable_two_pow {places : Nat} (h : places < 1024) : Representable (2 ^ places * unit) := by
  have hlt : unit * 2 ^ places < unitLimit := by
    rw [unit, ← Nat.pow_add]
    exact Nat.pow_lt_pow_right Nat.one_lt_two (Nat.add_lt_add_left h _)
  rw [Nat.mul_comm]
  exact representable_mul_two_pow representable_unit hlt

/-- Up to `2 ^ 53` every integer is a number. -/
theorem representable_integer {n : Nat} (h : n ≤ 2 ^ 53) : Representable (n * unit) := by
  rcases Nat.lt_or_eq_of_le h with hlt | rfl
  · have hunits : n * unit < 2 ^ (unitPlaces + 53) := by
      rw [Nat.pow_add, Nat.mul_comm]
      exact Nat.mul_lt_mul_of_pos_left hlt unit_pos
    have hrange : n * unit < unitLimit := Nat.lt_of_lt_of_le hunits (Nat.pow_le_pow_right Nat.two_pos (by omega))
    exact representable_of_dvd hrange hunits (Nat.dvd_mul_left ..)
  · exact representable_two_pow (by decide)

/-- A magnitude with a fraction is below `2 ^ 52`. -/
theorem lt_of_not_dvd {units : Nat} (h : Representable units) (hfraction : ¬ unit ∣ units) : units < 2 ^ 52 * unit := by
  rcases OnGrid.dvd_or_lt h.2 unitPlaces with hdvd | ⟨-, hlt⟩
  · exact absurd hdvd hfraction
  · rwa [Nat.pow_add] at hlt

/-- **An integer next to a number is a number.** -/
theorem representable_of_near {negative : Bool} {units : Nat} (h : Representable units) {n : Int}
    (hnear : (n * unit - signedUnits negative units).natAbs < unit) : Representable (n.natAbs * unit) := by
  have hmul : (n * unit).natAbs = n.natAbs * unit := by rw [Int.natAbs_mul, Int.natAbs_natCast]
  by_cases hdvd : unit ∣ units
  · -- Two integers that are less than one apart are the same.
    have hdvd' : (unit : Int) ∣ signedUnits negative units := by rwa [Int.natCast_dvd, natAbs_signedUnits]
    have hsame : n * unit - signedUnits negative units = 0 :=
      Int.eq_zero_of_dvd_of_natAbs_lt_natAbs (Int.dvd_sub (Int.dvd_mul_left ..) hdvd') hnear
    rw [← hmul, Int.sub_eq_zero.1 hsame, natAbs_signedUnits]
    exact h
  · have hbelow := lt_of_not_dvd h hdvd
    have habs := natAbs_signedUnits negative units
    have hlt : n.natAbs * unit < (2 ^ 52 + 1) * unit := by
      rw [← hmul, Nat.succ_mul]
      omega
    have hle := Nat.lt_of_mul_lt_mul_right hlt
    exact representable_integer (by omega)

theorem ofRatio_one (negative : Bool) {n : Nat} (h : Representable (n * unit)) :
    ofRatio negative n 1 = .finite negative (n * unit) h := by
  have hround := roundedUnits_of_representable negative Nat.one_pos h
  rwa [Nat.mul_one] at hround

namespace Binary64

/-- a number that is an integer, exactly -/
def IsExactly (x : Binary64) (n : ℤ) : Prop := x.isFinite ∧ x.toRat = n

theorem isExactly_ofRatio_one {negative : Bool} {n : Nat} (h : Representable (n * unit)) :
    (ofRatio negative n 1).IsExactly (signedUnits negative n) := by
  have hvalue : ((n * unit : Nat) : ℚ) / unit = n := by
    rw [Nat.cast_mul, mul_div_cancel_right₀ _ (ne_of_gt cast_unit_pos)]
  rw [ofRatio_one negative h]
  refine ⟨rfl, ?_⟩
  cases negative with
  | false => rw [toRat_positive, hvalue, signedUnits, if_neg Bool.false_ne_true, Int.cast_natCast]
  | true => rw [toRat_negative, hvalue, signedUnits, if_pos rfl, Int.cast_neg, Int.cast_natCast]

theorem isExactly_ofInt {n : ℤ} (h : Representable (n.natAbs * unit)) : (ofInt n).IsExactly n := by
  have hexact : (ofRatio (n < 0) n.natAbs 1).IsExactly (signedUnits (n < 0) n.natAbs) := isExactly_ofRatio_one h
  rwa [signedUnits_natAbs] at hexact

/-- The count of units of an integer is less than one away from that of a number if the integer is. -/
theorem near_iff {negative : Bool} {units : Nat} (h : Representable units) {n : ℤ} :
    (n * unit - signedUnits negative units).natAbs < unit ↔ |n - (finite negative units h).toRat| < 1 := by
  have hsub : n - (finite negative units h).toRat = ((n * unit - signedUnits negative units : ℤ) : ℚ) / unit := by
    rw [toRat, Int.cast_sub, Int.cast_mul, sub_div, Int.cast_natCast, mul_div_cancel_right₀ _ (ne_of_gt cast_unit_pos)]
  rw [hsub, abs_div, abs_of_pos cast_unit_pos, div_lt_one cast_unit_pos, ← Int.cast_abs, Int.abs_eq_natAbs,
    Int.cast_natCast, Nat.cast_lt]

theorem isExactly_ofInt_of_near {x : Binary64} (hx : x.isFinite) {n : ℤ} (h : |n - x.toRat| < 1) :
    (ofInt n).IsExactly n := by
  obtain ⟨s, u, hu, rfl⟩ := exists_finite_of_isFinite hx
  exact isExactly_ofInt (representable_of_near hu ((near_iff hu).2 h))

/-! ## Floor and ceiling -/

section

variable {x : Binary64} (hx : x.isFinite)

include hx

theorem floor_eq : floor x = ofInt ⌊x.toRat⌋ := by
  obtain ⟨s, u, hu, rfl⟩ := exists_finite_of_isFinite hx
  rw [floor, toRat, Rat.floor_intCast_div_natCast]

theorem ceil_eq : ceil x = ofInt ⌈x.toRat⌉ := by
  obtain ⟨s, u, hu, rfl⟩ := exists_finite_of_isFinite hx
  rw [ceil, toRat, Rat.ceil_intCast_div_natCast]

theorem isExactly_floor : (floor x).IsExactly ⌊x.toRat⌋ := by
  rw [floor_eq hx]
  refine isExactly_ofInt_of_near hx ?_
  rw [abs_sub_comm, Int.self_sub_floor, abs_of_nonneg (Int.fract_nonneg _)]
  exact Int.fract_lt_one _

theorem isExactly_ceil : (ceil x).IsExactly ⌈x.toRat⌉ := by
  rw [ceil_eq hx]
  refine isExactly_ofInt_of_near hx ?_
  rw [abs_of_nonneg (sub_nonneg.2 (Int.le_ceil _)), sub_lt_iff_lt_add']
  exact Int.ceil_lt_add_one _

end

/-! ## Rounding -/

theorem half_unit : unit / 2 * 2 = unit := by decide +kernel

theorem representable_half : Representable (unit / 2) := by decide +kernel

theorem half_eq : half = .finite false (unit / 2) representable_half :=
  ofRatio_of_eq Nat.two_pos representable_half (by rw [Nat.one_mul, half_unit])

theorem ofNat_whole {units : Nat} (h : Representable units) :
    ofNat (units / unit) = .finite false (units / unit * unit) (representable_whole h) :=
  ofRatio_one false (representable_whole h)

theorem sub_eq (x y : Binary64) : x - y = add x (neg y) := rfl

/-- The difference of a magnitude and the integer below it is not rounded. -/
theorem sub_whole {units : Nat} (h : Representable units) :
    finite false units h - ofNat (units / unit) = .finite false (units % unit) (representable_fraction h) := by
  have htotal : signedUnits false units + signedUnits (!false) (units / unit * unit) = ((units % unit : Nat) : ℤ) := by
    have hparts := Nat.div_add_mod' units unit
    simp only [signedUnits, Bool.not_false, Bool.false_eq_true, if_false, if_true]
    omega
  have hsign : (if ((units % unit : Nat) : ℤ) = 0 then (false && !false) else decide (((units % unit : Nat) : ℤ) < 0)) =
      false := by
    split
    · rfl
    · exact decide_eq_false (by omega)
  have hround := roundedUnits_of_representable false Nat.one_pos (representable_fraction h)
  rw [Nat.mul_one] at hround
  rw [ofNat_whole h, sub_eq, neg, add, htotal, hsign, Int.natAbs_natCast, hround]

theorem lt_half_iff {units : Nat} (h : Representable units) :
    (finite false (units % unit) (representable_fraction h)).lt half ↔ units % unit < unit / 2 := by
  rw [half_eq]
  exact finite_lt_finite _ _

/-- A fraction decides by its half whether adding a half reaches the next integer. -/
theorem add_half_div (units : Nat) :
    (units + unit / 2) / unit = if units % unit < unit / 2 then units / unit else units / unit + 1 := by
  have hparts := Nat.div_add_mod' units unit
  have hmod := Nat.mod_lt units unit_pos
  have hhalf := half_unit
  split
  · refine Nat.div_eq_of_lt_le (by omega) ?_
    rw [Nat.succ_mul]
    omega
  · refine Nat.div_eq_of_lt_le ?_ ?_
    · rw [Nat.succ_mul]
      omega
    · rw [Nat.succ_mul, Nat.succ_mul]
      omega

/-- **Rounding by the fraction** finds the integer below the magnitude and a half. -/
theorem round_finite {negative : Bool} {units : Nat} (h : Representable units) :
    round (.finite negative units h) = ofRatio negative ((units + unit / 2) / unit) 1 := by
  simp only [round, sub_whole h, lt_half_iff h, add_half_div]

/-- the integer nearest to a rational, a half away from zero -/
def awayFromZero (q : ℚ) : ℤ := SignType.sign q * ⌊|q| + 1 / 2⌋

theorem awayFromZero_neg (q : ℚ) : awayFromZero (-q) = -awayFromZero q := by
  rw [awayFromZero, awayFromZero, Left.sign_neg, abs_neg, SignType.coe_neg, neg_mul]

theorem awayFromZero_of_nonneg {q : ℚ} (h : 0 ≤ q) : awayFromZero q = ⌊q + 1 / 2⌋ := by
  rcases eq_or_lt_of_le h with rfl | hpos
  · norm_num [awayFromZero]
  · rw [awayFromZero, sign_pos hpos, abs_of_pos hpos]
    exact one_mul _

theorem abs_awayFromZero_sub_le (q : ℚ) : |awayFromZero q - q| ≤ 1 / 2 := by
  wlog h : 0 ≤ q generalizing q
  · have hneg := this (-q) (neg_nonneg.2 (le_of_not_ge h))
    rwa [awayFromZero_neg, Int.cast_neg, neg_sub_neg, abs_sub_comm] at hneg
  have hle := Int.floor_le (q + 1 / 2)
  have hlt := Int.lt_floor_add_one (q + 1 / 2)
  rw [awayFromZero_of_nonneg h, abs_le]
  constructor <;> linarith

theorem floor_le_awayFromZero (q : ℚ) : ⌊q⌋ ≤ awayFromZero q := by
  have hnear := abs_le.1 (abs_awayFromZero_sub_le q)
  have hlt : (⌊q⌋ : ℚ) < awayFromZero q + 1 := by linarith [Int.floor_le q]
  exact Int.lt_add_one_iff.1 (by exact_mod_cast hlt)

theorem awayFromZero_le_ceil (q : ℚ) : awayFromZero q ≤ ⌈q⌉ := by
  have hnear := abs_le.1 (abs_awayFromZero_sub_le q)
  have hlt : (awayFromZero q : ℚ) < ⌈q⌉ + 1 := by linarith [Int.le_ceil q]
  exact Int.lt_add_one_iff.1 (by exact_mod_cast hlt)

theorem awayFromZero_intCast (n : ℤ) : awayFromZero n = n := by
  have hfloor := floor_le_awayFromZero n
  have hceil := awayFromZero_le_ceil n
  rw [Int.floor_intCast] at hfloor
  rw [Int.ceil_intCast] at hceil
  omega

theorem abs_toRat {negative : Bool} {units : Nat} (h : Representable units) :
    |(finite negative units h).toRat| = (units : ℚ) / unit := by
  rw [toRat_finite]
  exact abs_signed (div_nonneg (Nat.cast_nonneg _) (Nat.cast_nonneg _))

theorem floor_add_half (units : Nat) : ⌊(units : ℚ) / unit + 1 / 2⌋ = ((units + unit / 2) / unit : Nat) := by
  have hhalf : ((unit / 2 : Nat) : ℚ) * 2 = unit := by exact_mod_cast half_unit
  have hsum : (units : ℚ) / unit + 1 / 2 = ((units + unit / 2 : Nat) : ℤ) / (unit : ℚ) := by
    have hunit := cast_unit_pos
    rw [Int.cast_natCast, Nat.cast_add, add_div, eq_div_of_mul_eq two_ne_zero hhalf]
    field_simp
  rw [hsum, Rat.floor_intCast_div_natCast]
  rfl

theorem awayFromZero_toRat {negative : Bool} {units : Nat} (h : Representable units) :
    awayFromZero (finite negative units h).toRat = signedUnits negative ((units + unit / 2) / unit) := by
  have hpos : (0 : ℚ) ≤ units / unit := div_nonneg (Nat.cast_nonneg _) (Nat.cast_nonneg _)
  cases negative with
  | false => rw [toRat_positive, awayFromZero_of_nonneg hpos, floor_add_half, signedUnits, if_neg Bool.false_ne_true]
  | true => rw [toRat_negative, awayFromZero_neg, awayFromZero_of_nonneg hpos, floor_add_half, signedUnits, if_pos rfl]

theorem neg_ofUnits (negative : Bool) (units : Nat) : -ofUnits negative units = ofUnits (!negative) units := by
  by_cases h : Representable units
  · rw [ofUnits_of_representable negative h, ofUnits_of_representable (!negative) h]
    rfl
  · rw [ofUnits, ofUnits, dif_neg h, dif_neg h]
    rfl

theorem neg_ofRatio (negative : Bool) (num den : Nat) : -ofRatio negative num den = ofRatio (!negative) num den := by
  rw [ofRatio, ofRatio, roundedUnits, roundedUnits, neg_ofUnits]

theorem round_neg (x : Binary64) : round (-x) = -round x := by
  cases x with
  | nan => rfl
  | infinite negative => rfl
  | finite negative units h =>
    show round (.finite (!negative) units h) = _
    rw [round_finite, round_finite, neg_ofRatio]

section

variable {x : Binary64} (hx : x.isFinite)

include hx

theorem isExactly_round : (round x).IsExactly (awayFromZero x.toRat) := by
  have hnear : |awayFromZero x.toRat - x.toRat| < 1 := lt_of_le_of_lt (abs_awayFromZero_sub_le _) (by norm_num)
  obtain ⟨s, u, hu, rfl⟩ := exists_finite_of_isFinite hx
  have hrepresentable := representable_of_near hu ((near_iff hu).2 hnear)
  rw [awayFromZero_toRat, natAbs_signedUnits] at hrepresentable
  rw [awayFromZero_toRat, round_finite]
  exact isExactly_ofRatio_one hrepresentable

/-- What rounding compares with a half is the exact fraction of the magnitude. -/
theorem abs_sub_floor : (x.abs - ofInt ⌊|x.toRat|⌋).toRat = Int.fract |x.toRat| := by
  obtain ⟨s, u, hu, rfl⟩ := exists_finite_of_isFinite hx
  have hfloor : ⌊(u : ℚ) / unit⌋ = ((u / unit : Nat) : ℤ) := Rat.floor_natCast_div_natCast u unit
  have hparts : (u : ℚ) = ((u / unit : Nat) : ℚ) * unit + (u % unit : Nat) := by
    exact_mod_cast (Nat.div_add_mod' u unit).symm
  have hwhole : ofInt ((u / unit : Nat) : ℤ) = ofNat (u / unit) := by
    rw [ofInt, decide_eq_false (Int.not_lt.2 (Int.natCast_nonneg _)), Int.natAbs_natCast, ofNat]
  rw [abs_toRat, hfloor, hwhole, Binary64.abs, sub_whole hu, toRat_positive, Int.fract, hfloor, Int.cast_natCast,
    div_eq_iff (ne_of_gt cast_unit_pos), sub_mul, div_mul_cancel₀ _ (ne_of_gt cast_unit_pos)]
  linarith

end

/-- **Floor, ceiling and rounding are exact.** For every finite number, at any magnitude, they are the floor and the
ceiling of the rational that it is, and the integer nearest to it, a half away from zero; the difference that rounding
compares with a half is exact too. Rounding is between the two, at most a half away, and odd; integers are fixed.
Infinities and NaN stay as they are. -/
theorem rounding_exact (x : Binary64) :
    Builtin.floor.unary? = some floor ∧ Builtin.ceil.unary? = some ceil ∧ Builtin.round.unary? = some round ∧
      (x.isFinite →
        (floor x).IsExactly ⌊x.toRat⌋ ∧ (ceil x).IsExactly ⌈x.toRat⌉ ∧
        (round x).IsExactly (SignType.sign x.toRat * ⌊|x.toRat| + 1 / 2⌋) ∧
        (x.abs - ofInt ⌊|x.toRat|⌋).toRat = Int.fract |x.toRat| ∧
        (round x).lt (floor x) = false ∧ (ceil x).lt (round x) = false ∧ |(round x).toRat - x.toRat| ≤ 1 / 2 ∧
        ∀ n : ℤ, x.toRat = n → (floor x).ieeeEq x ∧ (ceil x).ieeeEq x ∧ (round x).ieeeEq x) ∧
      round (-x) = -round x ∧ (x.isFinite = false → floor x = x ∧ ceil x = x ∧ round x = x) := by
  refine ⟨rfl, rfl, rfl, fun hx => ?_, round_neg x, fun hx => ?_⟩
  · have hfloor := isExactly_floor hx
    have hceil := isExactly_ceil hx
    have hround := isExactly_round hx
    refine ⟨hfloor, hceil, hround, abs_sub_floor hx, ?_, ?_, ?_, fun n hn => ?_⟩
    · rw [lt_eq_false_iff_toRat hround.1 hfloor.1, hround.2, hfloor.2, Int.cast_le]
      exact floor_le_awayFromZero _
    · rw [lt_eq_false_iff_toRat hceil.1 hround.1, hround.2, hceil.2, Int.cast_le]
      exact awayFromZero_le_ceil _
    · rw [hround.2]
      exact abs_awayFromZero_sub_le _
    · rw [ieeeEq_iff_toRat hfloor.1 hx, ieeeEq_iff_toRat hceil.1 hx, ieeeEq_iff_toRat hround.1 hx, hfloor.2, hceil.2,
        hround.2, hn, Int.floor_intCast, Int.ceil_intCast, awayFromZero_intCast]
      exact ⟨rfl, rfl, rfl⟩
  · cases x with
    | finite => cases hx
    | _ => exact ⟨rfl, rfl, rfl⟩

/-- the negative of the greatest number below a half -/
def belowHalf : Binary64 := ofRatio true (2 ^ 53 - 1) (2 ^ 54)

/-- The number next to a half is rounded to zero, although its magnitude and a half, added as numbers, are one. Beyond
`2 ^ 53` nothing changes, and neither do infinities. -/
theorem rounding_exact_belowHalf :
    belowHalf.isFinite ∧ (floor belowHalf).IsExactly (-1) ∧ (ceil belowHalf).IsExactly 0 ∧
      (round belowHalf).IsExactly 0 ∧ belowHalf.abs + half = ofInt 1 ∧
      (ofInt (2 ^ 60)).toRat = (2 ^ 60 : ℤ) ∧ (round (ofInt (2 ^ 60))).ieeeEq (ofInt (2 ^ 60)) ∧
      isFinite (.infinite true) = false ∧ round (.infinite true) = .infinite true := by
  have hfinite : belowHalf.isFinite := by decide +kernel
  have hvalue : belowHalf.toRat = -((2 ^ 53 - 1) / 2 ^ 54) := by decide +kernel
  obtain ⟨hfloor, hceil, hround, -⟩ := (rounding_exact belowHalf).2.2.2.1 hfinite
  have hfloor' : ⌊belowHalf.toRat⌋ = -1 := by rw [hvalue, Int.floor_eq_iff]; norm_num
  have hceil' : ⌈belowHalf.toRat⌉ = 0 := by rw [hvalue, Int.ceil_eq_iff]; norm_num
  have hhalf : ⌊|belowHalf.toRat| + 1 / 2⌋ = 0 := by rw [hvalue, Int.floor_eq_iff]; norm_num
  rw [hfloor'] at hfloor
  rw [hceil'] at hceil
  rw [hhalf, mul_zero] at hround
  have hinteger : (ofInt (2 ^ 60)).isFinite ∧ (ofInt (2 ^ 60)).toRat = (2 ^ 60 : ℤ) := by decide +kernel
  obtain ⟨-, -, -, -, -, -, -, hfixed⟩ := (rounding_exact (ofInt (2 ^ 60))).2.2.2.1 hinteger.1
  exact ⟨hfinite, hfloor, hceil, hround, by decide +kernel, hinteger.2, (hfixed _ hinteger.2).2.2, rfl,
    ((rounding_exact (.infinite true)).2.2.2.2.2 rfl).2.2⟩

end Binary64

end Calculator
