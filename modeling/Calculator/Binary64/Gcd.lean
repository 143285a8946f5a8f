/-
The greatest common divisor of numbers, by Euclid's algorithm on exact remainders.

The second operand of a step is the remainder of the step before. The algorithm ends when it is zero, negative or NaN,
and until then it becomes smaller (`remainder_size_lt`): an infinite divisor leaves a finite dividend as the remainder,
and the remainder by a finite divisor is below it.
-/
import Calculator.Binary64.Arithmetic

namespace Calculator.Binary64

/-- a bound on what remains to be done with a divisor -/
def size : Binary64 → Nat
  | nan => 0
  | infinite _ => unitLimit
  | finite _ units _ => units

/-- greater than zero -/
def isPositive : Binary64 → Bool
  | nan => false
  | infinite negative => !negative
  | finite negative units _ => !negative && units != 0

theorem remainder_size_lt (a : Binary64) {b : Binary64} (h : b.isPositive) : (remainder a b).size < b.size := by
  cases b with
  | nan => simp [isPositive] at h
  | infinite t =>
    cases a with
    | finite s u hu => exact hu.1
    | _ => exact unitLimit_pos
  | finite t v hv =>
    have hv0 : v ≠ 0 := by simp [isPositive] at h; exact h.2
    cases a with
    | finite s u hu => simp [remainder, hv0, size, Nat.mod_lt _ (Nat.pos_of_ne_zero hv0)]
    | _ => simp [remainder, size]; omega

/-- Euclid's algorithm, as long as the divisor is positive -/
def euclid (a b : Binary64) : Binary64 :=
  if _h : b.isPositive then euclid b (remainder a b) else a
termination_by b.size
decreasing_by exact remainder_size_lt a _h

/-- the greatest common divisor; that of zero and a number is the number -/
def gcd (a b : Binary64) : Binary64 := if a.isZero then b else euclid a b

end Calculator.Binary64
