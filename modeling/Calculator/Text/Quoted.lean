/-
Quoted text: a line as it is shown in the token dump and in the log.

The text stands between single quotes, or between double quotes when it holds a single quote and no double one. The
quote in use and the backslash are escaped by a backslash, the three common controls by their letter, and any other
character that is not printable by its code point in hexadecimal, of 2, 4 or 8 digits.
-/
import Calculator.Text
import Calculator.Text.Printable

namespace Calculator

/-- `n` in hexadecimal, with at least `width` digits -/
def hexCode (width n : Nat) : Text := padLeft width (Nat.toDigits 16 n)

/-- one character of quoted text -/
def escape (quote c : Char) : Text :=
  if c = quote ∨ c = '\\' then ['\\', c]
  else if c = '\n' then ['\\', 'n']
  else if c = '\r' then ['\\', 'r']
  else if c = '\t' then ['\\', 't']
  else if isPrintable c then [c]
  else if c.toNat < 0x100 then '\\' :: 'x' :: hexCode 2 c.toNat
  else if c.toNat < 0x10000 then '\\' :: 'u' :: hexCode 4 c.toNat
  else '\\' :: 'U' :: hexCode 8 c.toNat

/-- the quote that stands around a text -/
def quoteFor (text : Text) : Char := if '\'' ∈ text ∧ '"' ∉ text then '"' else '\''

def quoted (text : Text) : Text :=
  let quote := quoteFor text
  quote :: text.flatMap (escape quote) ++ [quote]

end Calculator
