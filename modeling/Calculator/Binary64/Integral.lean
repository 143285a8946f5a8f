/-
Integers in and out of double-precision numbers: floor, ceiling, rounding, and bitwise operations.

Floor and ceiling take the exact integer of a finite number. Rounding compares what a magnitude is above the integer
below it with a half, and takes the next integer if it is not less. All three leave infinities and NaN as they are.
A bitwise operation works on the two's complement of 64 bits: each operand is truncated toward zero and saturated to the
signed 64-bit range, NaN counting as zero, and the result is rounded back to a number.
-/
import Calculator.Binary64.Arithmetic

namespace Calculator.Binary64

/-- the greatest integer that is not above `x`; its zero is positive -/
def floor : Binary64 → Binary64
  | finite s u _ => ofInt (signedUnits s u / unit)
  | x => x

/-- the least integer that is not below `x`; its zero is positive -/
def ceil : Binary64 → Binary64
  | finite s u _ => ofInt (-(-signedUnits s u / unit))
  | x => x

def half : Binary64 := ofRatio false 1 2

/-- the integer nearest to `x`, a half away from zero; its zero has the sign of `x` -/
def round : Binary64 → Binary64
  | finite s u h =>
    let whole := u / unit
    -- The difference is one of numbers, so it is rounded like any other.
    let above := finite false u h - ofNat whole
    ofRatio s (if above.lt half then whole else whole + 1) 1
  | x => x

/-- the integer part of a finite number, when the number is an integer -/
def integer? : Binary64 → Option Int
  | finite s u _ => if u % unit = 0 then some (signedUnits s (u / unit)) else none
  | _ => none

def int64Min : Int := -2 ^ 63

def int64Max : Int := 2 ^ 63 - 1

/-- truncation toward zero into the signed 64-bit range, saturating; zero for NaN -/
def toInt64 : Binary64 → Int
  | nan => 0
  | infinite s => if s then int64Min else int64Max
  | finite s u _ =>
    if signedUnits s u ≤ int64Min * unit then int64Min
    else if int64Max * unit ≤ signedUnits s u then int64Max
    else signedUnits s (u / unit)

/-- a bitwise operation on the 64-bit integers of two numbers -/
def bitwise (f : BitVec 64 → BitVec 64 → BitVec 64) (a b : Binary64) : Binary64 :=
  ofInt (f (BitVec.ofInt 64 a.toInt64) (BitVec.ofInt 64 b.toInt64)).toInt

def bitAnd : Binary64 → Binary64 → Binary64 := bitwise (· &&& ·)

def bitXor : Binary64 → Binary64 → Binary64 := bitwise (· ^^^ ·)

def bitOr : Binary64 → Binary64 → Binary64 := bitwise (· ||| ·)

end Calculator.Binary64
