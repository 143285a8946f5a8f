/-
Numerals in the three radixes: digits, the value of a literal, and the expansion of a number.

A literal is a whole part and a fractional part. In decimal it has the number nearest to its value. In hexadecimal and
binary, whole part and fraction are each rounded to a number and their sum is rounded again; a whole part that is out
of range is an infinity.

Every finite number is a whole number of `2 ^ (-1074)`, so its expansion in base 2 ends after at most 1074 places, and
in base 16 after at most 269 (`fractionPlaces`).
-/
import Calculator.Binary64.Arithmetic
import Calculator.Text

namespace Calculator

/-- the numeral systems of literals and results -/
inductive Radix where
  | decimal
  | hexadecimal
  | binary
  deriving DecidableEq

namespace Radix

def base : Radix → Nat
  | decimal => 10
  | hexadecimal => 16
  | binary => 2

/-- the digits of a radix, letters in either case -/
def isDigit : Radix → Char → Bool
  | decimal, c => c.isDigit
  | hexadecimal, c => c.isDigit || ('a' ≤ c && c ≤ 'f') || ('A' ≤ c && c ≤ 'F')
  | binary, c => c == '0' || c == '1'

/-- the two characters in front of a literal that is not decimal -/
def mark : Radix → Text
  | decimal => []
  | hexadecimal => ['0', 'x']
  | binary => ['0', 'b']

end Radix

/-- the value of a digit of any radix -/
def digitValue (c : Char) : Nat :=
  if c.isDigit then c.toNat - '0'.toNat
  else if 'a' ≤ c then c.toNat - 'a'.toNat + 10
  else c.toNat - 'A'.toNat + 10

/-- the natural number that digits denote -/
def ofDigits (base : Nat) (digits : Text) : Nat := digits.foldl (fun n c => n * base + digitValue c) 0

theorem ofDigits_append (base : Nat) (ds es : Text) :
    ofDigits base (ds ++ es) = ofDigits base ds * base ^ es.length + ofDigits base es := by
  suffices h : ∀ n, es.foldl (fun n c => n * base + digitValue c) n = n * base ^ es.length + ofDigits base es by
    simp only [ofDigits, List.foldl_append]; exact h _
  unfold ofDigits
  induction es with
  | nil => simp
  | cons c es ih =>
    intro n
    simp only [List.foldl_cons, List.length_cons]
    rw [ih, ih (0 * base + digitValue c), Nat.pow_succ, Nat.add_mul, Nat.zero_mul, Nat.zero_add, Nat.mul_assoc,
      Nat.mul_comm base, Nat.add_assoc]

/-- the fraction below one that digits after the point denote, rounded -/
def fractionValue (base : Nat) (digits : Text) : Binary64 :=
  Binary64.ofRatio false (ofDigits base digits) (base ^ digits.length)

/-- the number that a literal denotes, from its digits before and after the point -/
def Radix.value (radix : Radix) (whole fraction : Text) : Binary64 :=
  match radix with
  | .decimal => Binary64.ofRatio false (ofDigits 10 (whole ++ fraction)) (10 ^ fraction.length)
  | _ => Binary64.ofNat (ofDigits radix.base whole) + fractionValue radix.base fraction

/-! ## Expansion -/

/-- The digits of `n / base ^ places`, a fraction below one; they end with the last one that is not zero. -/
def fractionDigits (base : Nat) : Nat → Nat → Text
  | 0, _ => []
  | _ + 1, 0 => []
  | places + 1, n => (n / base ^ places).digitChar :: fractionDigits base places (n % base ^ places)

/-- the digits that end the expansion of every finite number, and the count of `1 / base ^ places` in a unit -/
def Radix.fractionPlaces : Radix → Nat × Nat
  | decimal => (unitPlaces, 5 ^ unitPlaces)
  | hexadecimal => (269, 4)
  | binary => (unitPlaces, 1)

/-- the whole digits of a magnitude, then a point and the digits of its fraction where it has one -/
def Radix.expansion (radix : Radix) (units : Nat) : Text :=
  let whole := Nat.toDigits radix.base (units / Binary64.unit)
  let fraction := units % Binary64.unit
  if fraction = 0 then whole
  else whole ++ '.' :: fractionDigits radix.base radix.fractionPlaces.1 (fraction * radix.fractionPlaces.2)

end Calculator
