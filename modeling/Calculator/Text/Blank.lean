/-
Blank characters.

`isWhiteSpace` is the property White_Space of the Unicode standard. Two classes are made of it: the blanks between the
tokens of a line (all but the newline, which is a token), and what is taken off the ends of a line to see whether the
line is empty (which also holds the four information separators).
-/
import Calculator.Text

namespace Calculator

/-- the Unicode property White_Space -/
def isWhiteSpace (c : Char) : Bool :=
  ('\t' ≤ c && c ≤ '\r') || c == ' ' || c == '\u0085' || c == '\u00a0' || c == '\u1680' ||
  ('\u2000' ≤ c && c ≤ '\u200a') || c == '\u2028' || c == '\u2029' || c == '\u202f' || c == '\u205f' || c == '\u3000'

/-- a character that separates the tokens of a line -/
def isBlank (c : Char) : Bool := isWhiteSpace c && c != '\n'

/-- a character that leaves a line empty: white space, or an information separator -/
def isVoid (c : Char) : Bool := isWhiteSpace c || ('\x1c' ≤ c && c ≤ '\x1f')

/-- a line without content -/
def isEmptyLine (line : Text) : Bool := line.all isVoid

theorem not_isBlank_newline : isBlank '\n' = false := by decide

theorem isVoid_of_isBlank {c : Char} (h : isBlank c) : isVoid c := by
  simp only [isBlank, Bool.and_eq_true] at h
  simp [isVoid, h.1]

end Calculator
