/-
Numbers as text.

In decimal an integer shows all its digits, and any other number its shortest decimal: positional from `0.0001` on, and
with an exponent of at least two digits below. In the other radixes every finite number shows its whole expansion. A
minus sign stands in front of numbers below zero only. Infinities and NaN have the same text in every radix.
-/
import Calculator.Numeral.Radix
import Calculator.Numeral.Shortest

namespace Calculator

/-- how a decimal that is no integer is laid out -/
structure Layout where
  /-- how many zeros may stand between the point and the first digit that is not zero -/
  zeros : Nat
  /-- how many digits an exponent has at least -/
  exponentDigits : Nat

namespace Decimal

/-- whole part, point and all places -/
def positional (d : Decimal) : Text :=
  Nat.toDigits 10 (d.digits / 10 ^ d.places) ++ '.' :: padLeft d.places (Nat.toDigits 10 (d.digits % 10 ^ d.places))

/-- One digit, the others behind a point, and the power of ten below one as an exponent. -/
def scientific (exponentDigits : Nat) (d : Decimal) : Text :=
  match Nat.toDigits 10 d.digits with
  | [] => []
  | first :: rest =>
    let exponent := padLeft exponentDigits (Nat.toDigits 10 (d.places - rest.length))
    first :: (if rest.isEmpty then [] else '.' :: rest) ++ 'e' :: '-' :: exponent

/-- positional, unless there would be more zeros behind the point than the layout allows -/
def text (layout : Layout) (d : Decimal) : Text :=
  if d.places ≤ (Nat.toDigits 10 d.digits).length + layout.zeros then d.positional
  else d.scientific layout.exponentDigits

end Decimal

namespace Binary64

/-- a minus sign for a number below zero -/
def signText (negative : Bool) (units : Nat) : Text := if negative ∧ units ≠ 0 then ['-'] else []

/-- Decimals are positional from `0.0001` on; below, they have an exponent of at least two digits. -/
def layout : Layout := ⟨3, 2⟩

/-- the text of a magnitude in decimal -/
def magnitudeText (units : Nat) : Text :=
  if units % unit = 0 then Nat.toDigits 10 (units / unit) else (shortest units).text layout

def nonFiniteText : Binary64 → Text
  | infinite false => "inf".toList
  | infinite true => "-inf".toList
  | _ => "nan".toList

/-- a number in decimal -/
def text : Binary64 → Text
  | finite negative units _ => signText negative units ++ magnitudeText units
  | x => x.nonFiniteText

/-- the expansion of a number in hexadecimal or binary, without the mark of the radix -/
def expansion (radix : Radix) : Binary64 → Text
  | finite negative units _ => signText negative units ++ radix.expansion units
  | x => x.nonFiniteText

/-- A result for display: in hexadecimal and binary, finite numbers have the mark of the radix behind the sign. -/
def render (radix : Radix) (x : Binary64) : Text :=
  match radix, x with
  | .decimal, x => x.text
  | radix, finite negative units _ => signText negative units ++ radix.mark ++ radix.expansion units
  | _, x => x.nonFiniteText

end Binary64

end Calculator
