/-
Decimal numerals as free text, of which the base of a logarithm may consist.

White space around the numeral does not count, and digits of every script count as the ASCII digits of their values. A
numeral is a sign, then `inf`, `infinity` or `nan` in any case, or digits with a point anywhere among or around them
(but not alone) and an exponent. Its number is the one nearest to its value, of whatever size the exponent is.
-/
import Calculator.Binary64.Arithmetic
import Calculator.Numeral.Radix
import Calculator.Text.Blank
import Calculator.Text.DecimalDigit

namespace Calculator

/-- Digits, scaled by a power of ten. Powers that leave the range for certain are not formed: a decimal of `m` digits
lies below `10 ^ (m + exponent)` and not below a tenth of it. -/
def ofScientific (negative : Bool) (digits : Nat) (exponent : Int) : Binary64 :=
  let magnitude := (Nat.toDigits 10 digits).length + exponent
  if digits = 0 then .finite negative 0 representable_zero
  else if 310 ≤ magnitude then .infinite negative
  else if magnitude ≤ -330 then .finite negative 0 representable_zero
  else Binary64.ofRatio negative (digits * 10 ^ exponent.toNat) (10 ^ (-exponent).toNat)

/-- a sign in front of a text, whether it is a minus, and the rest -/
def splitSign : Text → Bool × Text
  | '-' :: rest => (true, rest)
  | '+' :: rest => (false, rest)
  | text => (false, text)

/-- the exponent that stands behind the digits of a numeral -/
def exponent? : Text → Option Int
  | [] => some 0
  | c :: rest =>
    if c != 'e' && c != 'E' then none
    else
      let (negative, digits) := splitSign rest
      if digits.isEmpty || !digits.all Char.isDigit then none
      else some (if negative then -(ofDigits 10 digits : Int) else ofDigits 10 digits)

/-- digits with an optional point and exponent -/
def scientific? (negative : Bool) (text : Text) : Option Binary64 :=
  let (whole, rest) := text.span Char.isDigit
  let (fraction, rest) := match rest with
    | '.' :: rest => rest.span Char.isDigit
    | rest => ([], rest)
  if whole.isEmpty && fraction.isEmpty then none
  else (exponent? rest).map fun e => ofScientific negative (ofDigits 10 (whole ++ fraction)) (e - fraction.length)

/-- white space taken off both ends -/
def trim (text : Text) : Text := dropEndWhile isWhiteSpace (text.dropWhile isWhiteSpace)

/-- a digit of any script as an ASCII digit -/
def asciiDigit (c : Char) : Char := ((decimalDigit? c).map Nat.digitChar).getD c

/-- the number that a text denotes, if it is a decimal numeral -/
def numeral? (text : Text) : Option Binary64 :=
  let (negative, body) := splitSign ((trim text).map asciiDigit)
  let word := String.ofList (body.map Char.toLower)
  if word = "inf" ∨ word = "infinity" then some (.infinite negative)
  else if word = "nan" then some .nan
  else scientific? negative body

end Calculator
