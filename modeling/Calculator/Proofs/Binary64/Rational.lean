/-
Finite numbers as rationals.

- `toRat`: the rational number that a finite number is;
- `lt_iff_toRat`, `ieeeEq_iff_toRat`: the order of numbers, and equality of them, is that of the rationals.
-/
import Calculator.Binary64.Arithmetic
import Mathlib.Algebra.Order.Field.Rat
import Mathlib.Data.Rat.Cast.Order
import Mathlib.Tactic.FieldSimp
import Mathlib.Tactic.Linarith

namespace Calculator.Binary64

/-- the rational number that a finite number is; NaN and the infinities are given the value zero -/
def toRat : Binary64 → ℚ
  | finite negative units _ => signedUnits negative units / unit
  | _ => 0

theorem natAbs_signedUnits (negative : Bool) (units : Nat) : (signedUnits negative units).natAbs = units := by
  cases negative <;> simp [signedUnits]

theorem signedUnits_natAbs (n : Int) : signedUnits (n < 0) n.natAbs = n := by
  simp only [signedUnits, decide_eq_true_eq]
  split <;> omega

theorem cast_unit_pos : (0 : ℚ) < unit := Nat.cast_pos.2 unit_pos

section

variable {x y : Binary64} (hx : x.isFinite) (hy : y.isFinite)

include hx hy

theorem lt_iff_toRat : x.lt y ↔ x.toRat < y.toRat := by
  obtain ⟨s, u, hu, rfl⟩ := exists_finite_of_isFinite hx
  obtain ⟨t, v, hv, rfl⟩ := exists_finite_of_isFinite hy
  rw [toRat, toRat, div_lt_div_iff_of_pos_right cast_unit_pos, Int.cast_lt, lt, decide_eq_true_iff]

theorem lt_eq_false_iff_toRat : x.lt y = false ↔ y.toRat ≤ x.toRat := by
  rw [← Bool.not_eq_true, lt_iff_toRat hx hy, not_lt]

theorem ieeeEq_iff_toRat : x.ieeeEq y ↔ x.toRat = y.toRat := by
  obtain ⟨s, u, hu, rfl⟩ := exists_finite_of_isFinite hx
  obtain ⟨t, v, hv, rfl⟩ := exists_finite_of_isFinite hy
  rw [toRat, toRat, div_left_inj' (ne_of_gt cast_unit_pos), Int.cast_inj, ieeeEq, beq_iff_eq]

end

/-- a rational number of a sign and a magnitude -/
def signed (negative : Bool) (q : ℚ) : ℚ := if negative then -q else q

/-- A finite number is so many parts of `1 / unit`, with its sign. -/
theorem toRat_finite {negative : Bool} {units : Nat} (h : Representable units) :
    (finite negative units h).toRat = signed negative (((units : Int) : ℚ) / unit) := by
  cases negative <;> simp [toRat, signed, signedUnits, neg_div]

theorem toRat_positive {units : Nat} (h : Representable units) : (finite false units h).toRat = (units : ℚ) / unit :=
  toRat_finite h

theorem toRat_negative {units : Nat} (h : Representable units) : (finite true units h).toRat = -((units : ℚ) / unit) :=
  toRat_finite h

end Calculator.Binary64
