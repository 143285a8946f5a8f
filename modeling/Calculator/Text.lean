/-
Text: what is read and printed, as the list of its characters.

- `dropEndWhile`: a text without some characters at its end; it is a beginning of the text (`dropEndWhile_append`), and
  ends in none of the characters that were dropped (`getLast?_dropEndWhile`);
- `padLeft`, `joined`: the two layouts that digits and lists of texts are given.
-/

namespace Calculator

/-- lines and what is printed, as the characters they consist of -/
abbrev Text := List Char

/-- a text without the characters at its end that have a property -/
def dropEndWhile (p : Char → Bool) (text : Text) : Text := (text.reverse.dropWhile p).reverse

/-- What is dropped is the longest end of the text that has the property throughout. -/
theorem dropEndWhile_append (p : Char → Bool) (text : Text) :
    dropEndWhile p text ++ (text.reverse.takeWhile p).reverse = text := by
  rw [dropEndWhile, ← List.reverse_append, List.takeWhile_append_dropWhile, List.reverse_reverse]

theorem getLast?_dropEndWhile {p : Char → Bool} {text : Text} {c : Char} (h : (dropEndWhile p text).getLast? = some c) :
    p c = false := by
  rw [dropEndWhile, List.getLast?_reverse] at h
  have := List.head?_dropWhile_not p text.reverse
  rw [h] at this
  simpa using this

/-- digits with zeros in front, up to a width -/
def padLeft (width : Nat) (digits : Text) : Text := List.replicate (width - digits.length) '0' ++ digits

/-- texts with a separator between them -/
def joined (separator : Text) : List Text → Text
  | [] => []
  | [t] => t
  | t :: ts => t ++ separator ++ joined separator ts

end Calculator
