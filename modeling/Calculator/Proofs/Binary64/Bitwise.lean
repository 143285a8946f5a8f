/-
Bitwise operations on numbers are those on integers.

An operand stands for the integer that is left when it is truncated toward zero and saturated to 64 bits. In two's
complement an integer has infinitely many bits, which are all the same from some place on; it fits into `k` bits and a
sign if they are so from the `k`-th on. An operation on bits keeps that, so that the bits of the operands are enough for
the result, which is rounded to a number once.

- `fits_iff_testBit`, `Fits.bitwise`: bits that are enough for the operands are enough for the result;
- `toInt_bitwise`: on so many bits, the operation is that on integers;
- `toInt64_eq`: comparing an operand with the bounds finds its truncation;
- `bitwise_nearest`: the operations give the number nearest to the result on integers.
-/
import Calculator.Evaluation
import Calculator.Proofs.Binary64.Faithful
import Calculator.Proofs.Binary64.Integers
import Mathlib.Data.Int.Bitwise

namespace Calculator

open Binary64

/-! ## Two's complement -/

/-- An integer fits into so many bits and a sign. -/
def Fits (places : Nat) (n : ℤ) : Prop := -2 ^ places ≤ n ∧ n < 2 ^ places

instance (places : Nat) (n : ℤ) : Decidable (Fits places n) := inferInstanceAs (Decidable (_ ∧ _))

theorem fits_ofNat_iff {places n : Nat} : Fits places n ↔ n < 2 ^ places := by
  constructor
  · rintro ⟨-, h⟩
    exact_mod_cast h
  · intro h
    have hpow : (0 : ℤ) ≤ 2 ^ places := pow_nonneg (by decide) _
    exact ⟨by omega, by exact_mod_cast h⟩

theorem fits_negSucc_iff {places n : Nat} : Fits places (.negSucc n) ↔ n < 2 ^ places := by
  rw [Fits, Int.negSucc_eq]
  constructor
  · rintro ⟨h, -⟩
    have hle : ((n + 1 : Nat) : ℤ) ≤ (2 ^ places : Nat) := by push_cast; omega
    exact Int.ofNat_le.1 hle
  · intro h
    have hle : ((n + 1 : Nat) : ℤ) ≤ (2 ^ places : Nat) := Int.ofNat_le.2 h
    push_cast at hle
    exact ⟨by omega, by omega⟩

theorem forall_testBit_eq_false_iff {places n : Nat} : (∀ i, places ≤ i → n.testBit i = false) ↔ n < 2 ^ places := by
  constructor
  · exact Nat.lt_pow_two_of_testBit n
  · intro h i hi
    exact Nat.testBit_lt_two_pow (Nat.lt_of_lt_of_le h (Nat.pow_le_pow_right Nat.two_pos hi))

/-- Far enough up, a natural has no bits. -/
theorem testBit_far {n i : Nat} (h : n ≤ i) : n.testBit i = false :=
  Nat.testBit_lt_two_pow (Nat.lt_of_lt_of_le Nat.lt_two_pow_self (Nat.pow_le_pow_right Nat.two_pos h))

/-- **An integer fits** into the bits from which on all are the same. -/
theorem fits_iff_testBit {places : Nat} {n : ℤ} : Fits places n ↔ ∃ sign, ∀ i, places ≤ i → n.testBit i = sign := by
  cases n with
  | ofNat n =>
    rw [Int.ofNat_eq_natCast, fits_ofNat_iff, ← forall_testBit_eq_false_iff]
    constructor
    · exact fun h => ⟨false, h⟩
    · rintro ⟨sign, h⟩ i hi
      have hsign : false = sign := (testBit_far (Nat.le_add_left n places)).symm.trans (h _ (Nat.le_add_right ..))
      exact (h i hi).trans hsign.symm
  | negSucc n =>
    rw [fits_negSucc_iff, ← forall_testBit_eq_false_iff]
    constructor
    · exact fun h => ⟨true, fun i hi => congrArg not (h i hi)⟩
    · rintro ⟨sign, h⟩ i hi
      have hsign : true = sign :=
        (congrArg not (testBit_far (Nat.le_add_left n places))).symm.trans (h _ (Nat.le_add_right ..))
      exact Bool.not_inj ((h i hi).trans hsign.symm)

theorem testBit_ne (m n : Nat) : ∃ i, Int.testBit m i ≠ Int.testBit (.negSucc n) i := by
  refine ⟨m + n, ?_⟩
  have hm : m.testBit (m + n) = false := testBit_far (Nat.le_add_right ..)
  have hn : n.testBit (m + n) = false := testBit_far (Nat.le_add_left ..)
  simp [Int.testBit, hm, hn]

/-- Integers with the same bits are equal. -/
theorem eq_of_testBit_eq {m n : ℤ} (h : ∀ i, m.testBit i = n.testBit i) : m = n := by
  cases m with
  | ofNat m =>
    cases n with
    | ofNat n => exact congrArg Int.ofNat (Nat.eq_of_testBit_eq h)
    | negSucc n =>
      obtain ⟨i, hi⟩ := testBit_ne m n
      exact absurd (h i) hi
  | negSucc m =>
    cases n with
    | ofNat n =>
      obtain ⟨i, hi⟩ := testBit_ne n m
      exact absurd (h i).symm hi
    | negSucc n => exact congrArg Int.negSucc (Nat.eq_of_testBit_eq fun i => Bool.not_inj (h i))

theorem Fits.natAbs_le {places : Nat} {n : ℤ} (h : Fits places n) : n.natAbs ≤ 2 ^ places := by
  have hle : (n.natAbs : ℤ) ≤ (2 ^ places : Nat) := by
    rw [Int.natCast_natAbs, Nat.cast_pow, Nat.cast_ofNat, abs_le]
    exact ⟨h.1, h.2.le⟩
  exact Int.ofNat_le.1 hle

section

variable {table : Bool → Bool → Bool} {places : Nat} {m n : ℤ}

/-- **The bits of the operands are enough for the result.** -/
theorem Fits.bitwise (hm : Fits places m) (hn : Fits places n) : Fits places (Int.bitwise table m n) := by
  obtain ⟨s, hs⟩ := fits_iff_testBit.1 hm
  obtain ⟨t, ht⟩ := fits_iff_testBit.1 hn
  refine fits_iff_testBit.2 ⟨table s t, fun i hi => ?_⟩
  rw [Int.testBit_bitwise, hs i hi, ht i hi]

/-- The bits behind the sign are those of the sign. -/
theorem Fits.testBit_min (hn : Fits places n) (i : Nat) : n.testBit (min i places) = n.testBit i := by
  obtain ⟨sign, h⟩ := fits_iff_testBit.1 hn
  rcases Nat.le_total i places with hi | hi
  · rw [Nat.min_eq_left hi]
  · rw [Nat.min_eq_right hi, h places (Nat.le_refl _), h i hi]

theorem getLsbD_ofInt (n : ℤ) {width i : Nat} (hi : i < width) : (BitVec.ofInt width n).getLsbD i = n.testBit i := by
  cases n with
  | ofNat n =>
    rw [Int.ofNat_eq_natCast, BitVec.ofInt_natCast, BitVec.getLsbD_ofNat, decide_eq_true hi, Bool.true_and]
    rfl
  | negSucc n =>
    rw [BitVec.ofInt_negSucc_eq_not_ofNat, BitVec.getLsbD_not, BitVec.getLsbD_ofNat, decide_eq_true hi, Bool.true_and,
      Bool.true_and]
    rfl

theorem fits_toInt (x : BitVec (places + 1)) : Fits places x.toInt := ⟨BitVec.le_toInt x, BitVec.toInt_lt⟩

theorem testBit_toInt (x : BitVec (places + 1)) (i : Nat) : x.toInt.testBit i = x.getLsbD (min i places) := by
  rw [← (fits_toInt x).testBit_min, ← getLsbD_ofInt _ (by omega : min i places < places + 1), BitVec.ofInt_toInt]

/-- **On the bits of the operands, the operation is that on integers.** -/
theorem toInt_bitwise {f : BitVec (places + 1) → BitVec (places + 1) → BitVec (places + 1)}
    (hf : ∀ x y i, i < places + 1 → (f x y).getLsbD i = table (x.getLsbD i) (y.getLsbD i)) (hm : Fits places m)
    (hn : Fits places n) : (f (BitVec.ofInt _ m) (BitVec.ofInt _ n)).toInt = Int.bitwise table m n := by
  refine eq_of_testBit_eq fun i => ?_
  have hi : min i places < places + 1 := by omega
  rw [testBit_toInt, hf _ _ _ hi, getLsbD_ofInt m hi, getLsbD_ofInt n hi, hm.testBit_min, hn.testBit_min,
    Int.testBit_bitwise]

theorem bitwise_comm (htable : ∀ p q, table p q = table q p) (m n : ℤ) :
    Int.bitwise table m n = Int.bitwise table n m :=
  eq_of_testBit_eq fun i => by rw [Int.testBit_bitwise, Int.testBit_bitwise, htable]

end

namespace Binary64

/-! ## Operands -/

/-- the integer that is left of a rational when its fraction is left out -/
def towardZero (q : ℚ) : ℤ := if q < 0 then ⌈q⌉ else ⌊q⌋

/-- the integer that an operand stands for: it is truncated toward zero, and saturated to 64 bits -/
def truncated : Binary64 → ℤ
  | nan => 0
  | infinite negative => if negative then -2 ^ 63 else 2 ^ 63 - 1
  | finite negative units h => max (-2 ^ 63) (min (2 ^ 63 - 1) (towardZero (finite negative units h).toRat))

theorem towardZero_toRat {negative : Bool} {units : Nat} (h : Representable units) :
    towardZero (finite negative units h).toRat = signedUnits negative (units / unit) := by
  have hfloor : ⌊(units : ℚ) / unit⌋ = ((units / unit : Nat) : ℤ) := Rat.floor_natCast_div_natCast units unit
  have hnonneg : (0 : ℚ) ≤ units / unit := div_nonneg (Nat.cast_nonneg _) (Nat.cast_nonneg _)
  cases negative with
  | false => rw [toRat_positive, towardZero, if_neg (not_lt.2 hnonneg), hfloor, signedUnits, if_neg Bool.false_ne_true]
  | true =>
    rw [toRat_negative, signedUnits, if_pos rfl, towardZero]
    split
    · rw [Int.ceil_neg, hfloor]
    · rename_i hzero
      have hzero : (units : ℚ) / unit = 0 := le_antisymm (by linarith) hnonneg
      rw [hzero, Int.floor_zero] at hfloor
      rw [hzero, neg_zero, Int.floor_zero, ← hfloor, neg_zero]

/-- **Comparing an operand with the bounds** finds its truncation. -/
theorem toInt64_eq (x : Binary64) : x.toInt64 = x.truncated := by
  cases x with
  | nan => rfl
  | infinite negative => cases negative <;> rfl
  | finite negative units h =>
    have hleast : 2 ^ 63 ≤ units / unit ↔ 2 ^ 63 * unit ≤ units := Nat.le_div_iff_mul_le unit_pos
    have hgreatest : 2 ^ 63 - 1 ≤ units / unit ↔ (2 ^ 63 - 1) * unit ≤ units := Nat.le_div_iff_mul_le unit_pos
    have hpos := unit_pos
    rw [toInt64, truncated, towardZero_toRat, int64Min, int64Max]
    generalize unit = one at *
    generalize units / one = whole at *
    cases negative with
    | false =>
      simp only [signedUnits, Bool.false_eq_true, if_false]
      split
      · omega
      · split <;> omega
    | true =>
      simp only [signedUnits, if_true]
      split
      · omega
      · split <;> omega

theorem fits_truncated (x : Binary64) : Fits 63 x.truncated := by
  cases x with
  | nan => exact ⟨by decide, by decide⟩
  | infinite negative => cases negative <;> exact ⟨by decide, by decide⟩
  | finite negative units h =>
    rw [truncated, Fits]
    omega

/-! ## Results -/

theorem isNearest_ofInt (n : ℤ) : IsNearest n (ofInt n) := by
  have hsigned : signed (n < 0) ((n.natAbs : ℚ) / (1 : Nat)) = n := by
    have habs : ((n.natAbs : ℤ) : ℚ) = |(n : ℚ)| := by rw [Int.natCast_natAbs, Int.cast_abs]
    rw [Nat.cast_one, div_one, ← Int.cast_natCast, habs, signed]
    split
    · rename_i h
      have hneg : (n : ℚ) < 0 := Int.cast_lt_zero.2 (of_decide_eq_true h)
      rw [abs_of_neg hneg, neg_neg]
    · rename_i h
      have hnonneg : (0 : ℚ) ≤ n := Int.cast_nonneg (by simpa using h)
      rw [abs_of_nonneg hnonneg]
  have hnearest : IsNearest (signed (n < 0) ((n.natAbs : ℚ) / (1 : Nat))) (ofInt n) := isNearest_ofRatio Nat.one_pos _
  rwa [hsigned] at hnearest

/-- An integer up to a power of two is rounded to a number up to it. -/
theorem ofInt_bounds {n : ℤ} {places : Nat} (hplaces : places < 1024) (h : n.natAbs ≤ 2 ^ places) :
    (ofInt n).isFinite ∧ |(ofInt n).toRat| ≤ 2 ^ places := by
  have hlimit := representable_two_pow hplaces
  have hle : roundUnits (n.natAbs * unit) 1 ≤ 2 ^ places * unit := roundUnits_one_le hlimit (Nat.mul_le_mul_right _ h)
  have hround := representable_roundUnits (Nat.lt_of_le_of_lt hle hlimit.1)
  rw [ofInt, ofRatio, roundedUnits, ofUnits_of_representable _ hround]
  refine ⟨rfl, ?_⟩
  rw [abs_toRat, div_le_iff₀ cast_unit_pos]
  exact_mod_cast hle

theorem truncated_of_isExactly {x : Binary64} {n : ℤ} (h : x.IsExactly n) :
    x.truncated = max (-2 ^ 63) (min (2 ^ 63 - 1) n) := by
  obtain ⟨hfinite, hvalue⟩ := h
  obtain ⟨s, u, hu, rfl⟩ := exists_finite_of_isFinite hfinite
  rw [truncated, hvalue, towardZero, Int.ceil_intCast, Int.floor_intCast, ite_self]

/-- Truncating once more changes nothing, not even where the bound is not a number: it is rounded up, and saturated. -/
theorem truncated_ofInt_truncated (x : Binary64) : (ofInt x.truncated).truncated = x.truncated := by
  have hleast : (ofInt (-2 ^ 63)).truncated = -2 ^ 63 := by decide +kernel
  have hgreatest : (ofInt (2 ^ 63 - 1)).truncated = 2 ^ 63 - 1 := by decide +kernel
  cases x with
  | nan => decide +kernel
  | infinite negative =>
    cases negative with
    | false => exact hgreatest
    | true => exact hleast
  | finite negative units h =>
    have hexact : (ofInt (signedUnits negative (units / unit))).IsExactly (signedUnits negative (units / unit)) := by
      refine isExactly_ofInt ?_
      rw [natAbs_signedUnits]
      exact representable_whole h
    rw [truncated, towardZero_toRat]
    generalize signedUnits negative (units / unit) = n at *
    rcases lt_or_ge (-2 ^ 63) n with hlow | hlow
    · rcases lt_or_ge n (2 ^ 63 - 1) with hhigh | hhigh
      · have hclamp : max (-2 ^ 63) (min (2 ^ 63 - 1) n) = n := by omega
        rw [hclamp, truncated_of_isExactly hexact, hclamp]
      · have hclamp : max (-2 ^ 63) (min (2 ^ 63 - 1) n) = 2 ^ 63 - 1 := by omega
        rw [hclamp, hgreatest]
    · have hclamp : max (-2 ^ 63) (min (2 ^ 63 - 1) n) = -2 ^ 63 := by omega
      rw [hclamp, hleast]

end Binary64

/-! ## Operations -/

/-- the operation on a pair of bits that a bitwise operator stands for -/
def Operator.bits? : Operator → Option (Bool → Bool → Bool)
  | .bitAnd => some and
  | .xor => some Bool.xor
  | .bitOr => some or
  | _ => none

/-- A bitwise operator works on the truncations of its operands, and its result is rounded. -/
theorem apply_of_bits? {op : Operator} {table : Bool → Bool → Bool} (h : op.bits? = some table) :
    (∀ p q, table p q = table q p) ∧
      ∀ a b, op.apply a b = .ok (ofInt (Int.bitwise table a.truncated b.truncated)) := by
  have hbitwise {f : BitVec 64 → BitVec 64 → BitVec 64}
      (hf : ∀ x y i, i < 64 → (f x y).getLsbD i = table (x.getLsbD i) (y.getLsbD i)) (a b : Binary64) :
      (.ok (Binary64.bitwise f a b) : Except EvalFault Binary64) =
        .ok (ofInt (Int.bitwise table a.truncated b.truncated)) := by
    rw [Binary64.bitwise, toInt64_eq, toInt64_eq, toInt_bitwise hf (fits_truncated a) (fits_truncated b)]
  cases op with
  | bitAnd =>
    cases h
    exact ⟨Bool.and_comm, hbitwise fun _ _ _ _ => BitVec.getLsbD_and⟩
  | xor =>
    cases h
    exact ⟨Bool.xor_comm, hbitwise fun _ _ _ _ => BitVec.getLsbD_xor⟩
  | bitOr =>
    cases h
    exact ⟨Bool.or_comm, hbitwise fun _ _ _ _ => BitVec.getLsbD_or⟩
  | _ => cases h

theorem bitwise_or_zero (n : ℤ) : Int.bitwise or n 0 = n :=
  eq_of_testBit_eq fun i => by
    have hzero : Int.testBit 0 i = false := Nat.zero_testBit i
    rw [Int.testBit_bitwise, hzero, Bool.or_false]

theorem truncated_of_isZero {x : Binary64} (h : x.isZero) : x.truncated = 0 := by
  obtain ⟨s, rfl⟩ := exists_finite_of_isZero h
  rw [truncated, towardZero_toRat, Nat.zero_div]
  cases s <;> rfl

/-- **Bitwise operators.** Any two numbers are taken as the integers of 64 bits that are left when they are truncated
toward zero and saturated, a NaN as zero. The operator gives the number nearest to the integer of which each bit, in
two's complement, is its value on the bits of those. So the result is finite, from `-2 ^ 63` up to `2 ^ 63`, and does
not change when the operands are exchanged; it is not rounded if both integers fit into 53 bits and a sign; and together
with a zero, "or" only truncates. -/
theorem bitwise_nearest {op : Operator} {table : Bool → Bool → Bool} (h : op.bits? = some table) :
    ∃ f : Binary64 → Binary64 → Binary64, (∀ a b, op.apply a b = .ok (f a b)) ∧ ∀ a b,
      IsNearest (Int.bitwise table a.truncated b.truncated) (f a b) ∧
        (∀ i, (Int.bitwise table a.truncated b.truncated).testBit i =
          table (a.truncated.testBit i) (b.truncated.testBit i)) ∧
        Fits 63 (Int.bitwise table a.truncated b.truncated) ∧
        (f a b).isFinite ∧ -2 ^ 63 ≤ (f a b).toRat ∧ (f a b).toRat ≤ 2 ^ 63 ∧ f a b = f b a ∧
        (Fits 53 a.truncated → Fits 53 b.truncated →
          (f a b).IsExactly (Int.bitwise table a.truncated b.truncated)) ∧
        (op = .bitOr → b.isZero → (f a b).truncated = a.truncated) := by
  obtain ⟨hcomm, happly⟩ := apply_of_bits? h
  refine ⟨_, happly, fun a b => ?_⟩
  have hfits : Fits 63 (Int.bitwise table a.truncated b.truncated) := (fits_truncated a).bitwise (fits_truncated b)
  obtain ⟨hfinite, hbound⟩ := ofInt_bounds (by decide) hfits.natAbs_le
  refine ⟨isNearest_ofInt _, fun i => Int.testBit_bitwise .., hfits, hfinite, (abs_le.1 hbound).1, (abs_le.1 hbound).2,
    ?_, fun ha hb => ?_, fun hop hzero => ?_⟩
  · rw [bitwise_comm hcomm]
  · exact isExactly_ofInt (representable_integer (ha.bitwise hb).natAbs_le)
  · subst hop
    cases h
    rw [truncated_of_isZero hzero, bitwise_or_zero, truncated_ofInt_truncated]

/-- The integers `2 ^ 53` and one have every bit of `2 ^ 53 + 1` between them, which is in the middle of two numbers and
rounded to the even one. A fraction below zero is cut off toward zero. -/
theorem bitwise_nearest_halfway :
    Operator.bitOr.bits? = some or ∧ (∀ a b, Operator.bitOr.apply a b = .ok (bitOr a b)) ∧
      IsNearest ((2 ^ 53 + 1 : ℤ) : ℚ) (bitOr (ofInt (2 ^ 53)) (ofInt 1)) ∧
      bitOr (ofInt (2 ^ 53)) (ofInt 1) = ofInt (2 ^ 53) ∧
      (ofRatio true 79 10).truncated = -7 ∧ Fits 53 (-7) ∧ zero.isZero ∧ zero.truncated = 0 ∧
      (bitOr (ofRatio true 79 10) zero).IsExactly (-7) ∧ (bitOr (ofRatio true 79 10) zero).truncated = -7 := by
  have hlarge : (ofInt (2 ^ 53)).truncated = 2 ^ 53 ∧ (ofInt 1).truncated = 1 := by decide +kernel
  have hfraction : (ofRatio true 79 10).truncated = -7 := by decide +kernel
  have hzero : zero.truncated = 0 := truncated_of_isZero rfl
  obtain ⟨f, hf, hall⟩ := bitwise_nearest (rfl : Operator.bitOr.bits? = some or)
  obtain rfl : bitOr = f := funext fun a => funext fun b => Except.ok.inj (hf a b)
  obtain ⟨hnearest, -⟩ := hall (ofInt (2 ^ 53)) (ofInt 1)
  obtain ⟨-, -, -, -, -, -, -, hexact, htruncated⟩ := hall (ofRatio true 79 10) zero
  rw [hfraction, hzero] at hexact
  rw [hfraction] at htruncated
  rw [hlarge.1, hlarge.2] at hnearest
  have hfits : Fits 53 (-7) := ⟨by decide, by decide⟩
  have hbits : Int.bitwise or (2 ^ 53) 1 = 2 ^ 53 + 1 ∧ Int.bitwise or (-7) 0 = -7 := by decide +kernel
  rw [hbits.1] at hnearest
  rw [hbits.2] at hexact
  exact ⟨rfl, hf, hnearest, by decide +kernel, hfraction, hfits, rfl, hzero, hexact hfits ⟨by decide, by decide⟩,
    htruncated rfl rfl⟩

end Calculator
