/-
From a line to its tokens.

`scan` reads one token off a text that starts with no blank: the longest literal, name or operator there, and otherwise
one invalid character (`0x` and `0b` with no digit behind them are one invalid token of two). A minus belongs to the
literal behind it, unless the token before it ends an operand. `tokens` scans until the text is used up and adds the
end of input, one character wide.

- `literal?_length`: a literal is not empty, and part of the text it is read off;
- `scan_le`: a token ends inside the line.
-/
import Calculator.Text.Blank
import Calculator.Token

namespace Calculator

namespace Lexer

/-! ## Literals -/

/-- a literal without sign, by its digits before and after the point, and how many characters it takes -/
structure Literal where
  radix : Radix
  whole : Text
  fraction : Text
  length : Nat

def Literal.value (l : Literal) : Binary64 := l.radix.value l.whole l.fraction

/-- Digits, a point and further digits, as many as there are; a point counts only behind a digit or before one. -/
def digits? (radix : Radix) (text : Text) : Option Literal :=
  let whole := text.takeWhile radix.isDigit
  match text.dropWhile radix.isDigit with
  | '.' :: rest =>
    let fraction := rest.takeWhile radix.isDigit
    if whole.isEmpty && (fraction.isEmpty || radix != .decimal) then none
    else some ⟨radix, whole, fraction, whole.length + 1 + fraction.length⟩
  | _ => if whole.isEmpty then none else some ⟨radix, whole, [], whole.length⟩

theorem length_takeWhile_add_length_dropWhile {α : Type} (p : α → Bool) (l : List α) :
    (l.takeWhile p).length + (l.dropWhile p).length = l.length := by
  rw [← List.length_append, List.takeWhile_append_dropWhile]

theorem digits?_length {radix : Radix} {text : Text} {l : Literal} (h : digits? radix text = some l) :
    0 < l.length ∧ l.length ≤ text.length := by
  have hsum := length_takeWhile_add_length_dropWhile radix.isDigit text
  unfold digits? at h
  simp only at h
  split at h
  · rename_i rest hdrop
    have hrest := length_takeWhile_add_length_dropWhile radix.isDigit rest
    rw [hdrop, List.length_cons] at hsum
    split at h
    · cases h
    · cases h; exact ⟨by simp only; omega, by simp only; omega⟩
  · split at h
    · cases h
    · rename_i hne
      have := List.length_pos_iff.2 (mt List.isEmpty_iff.2 hne)
      cases h; exact ⟨this, by simp only; omega⟩

/-- the literal without sign that a text starts with -/
def literal? : Text → Option Literal
  | '0' :: 'x' :: rest => (digits? .hexadecimal rest).map fun l => { l with length := l.length + 2 }
  | '0' :: 'b' :: rest => (digits? .binary rest).map fun l => { l with length := l.length + 2 }
  | text => digits? .decimal text

theorem literal?_length {text : Text} {l : Literal} (h : literal? text = some l) :
    0 < l.length ∧ l.length ≤ text.length := by
  unfold literal? at h
  split at h
  · obtain ⟨m, hm, rfl⟩ := Option.map_eq_some_iff.1 h
    have := digits?_length hm
    simp only [List.length_cons]; omega
  · obtain ⟨m, hm, rfl⟩ := Option.map_eq_some_iff.1 h
    have := digits?_length hm
    simp only [List.length_cons]; omega
  · exact digits?_length h

/-! ## Names and symbols -/

def isNameStart (c : Char) : Bool := c.isAlpha || c == '_'

def isNamePart (c : Char) : Bool := c.isAlphanum || c == '_'

/-- the word that starts with a character, which is a name or the keyword -/
def word (first : Char) (rest : Text) : Lexeme × Nat :=
  let part := rest.takeWhile isNamePart
  let name := String.ofList (first :: part)
  (if name = "let" then .letKeyword else .name name, part.length)

/-- an operator, a mark or a newline that is one character -/
def symbol? : Char → Option Lexeme
  | '+' => some (.operator .add)
  | '-' => some (.operator .subtract)
  | '*' => some (.operator .multiply)
  | '/' => some (.operator .divide)
  | '%' => some (.operator .modulo)
  | '&' => some (.operator .bitAnd)
  | '^' => some (.operator .xor)
  | '|' => some (.operator .bitOr)
  | '(' => some (.operator .leftParen)
  | ')' => some (.operator .rightParen)
  | ',' => some (.punctuation .comma)
  | '{' => some (.punctuation .leftBrace)
  | '}' => some (.punctuation .rightBrace)
  | '[' => some (.punctuation .leftBracket)
  | ']' => some (.punctuation .rightBracket)
  | '\n' => some .newline
  | _ => none

/-- what is neither literal nor name: an operator of two characters or one, or an invalid token -/
def symbol (c : Char) (rest : Text) : Lexeme × Nat :=
  match c, rest with
  | '*', '*' :: _ => (.operator .exponent, 1)
  | '0', 'x' :: _ => (.invalid ['0', 'x'], 1)
  | '0', 'b' :: _ => (.invalid ['0', 'b'], 1)
  | _, _ => ((symbol? c).getD (.invalid [c]), 0)

/-! ## Tokens -/

/-- the token that starts with a character, and how many further characters it takes -/
def scan (afterOperand : Bool) (c : Char) (rest : Text) : Lexeme × Nat :=
  match literal? (c :: rest) with
  | some l => (.number l.value l.radix, l.length - 1)
  | none =>
    if isNameStart c then word c rest
    else if c = '-' ∧ afterOperand = false then
      match literal? rest with
      | some l => (.number (-l.value) l.radix, l.length)
      | none => symbol c rest
    else symbol c rest

theorem word_le (first : Char) (rest : Text) : (word first rest).2 ≤ rest.length := by
  have := length_takeWhile_add_length_dropWhile isNamePart rest
  simp only [word]; omega

theorem symbol_le (c : Char) (rest : Text) : (symbol c rest).2 ≤ rest.length := by
  unfold symbol; split <;> simp

/-- A token takes no more characters than there are. -/
theorem scan_le (afterOperand : Bool) (c : Char) (rest : Text) : (scan afterOperand c rest).2 ≤ rest.length := by
  unfold scan
  split
  · rename_i l h
    have := literal?_length h
    simp only [List.length_cons] at this ⊢; omega
  · split
    · exact word_le c rest
    · split
      · split
        · rename_i l h
          exact (literal?_length h).2
        · exact symbol_le c rest
      · exact symbol_le c rest

/-- the tokens of the text from a position of the line on -/
def tokensFrom (position : Nat) (afterOperand : Bool) : Text → List Token
  | [] => [⟨.endOfInput, ⟨position, position + 1⟩⟩]
  | c :: rest =>
    if isBlank c then tokensFrom (position + 1) afterOperand rest
    else
      let (lexeme, more) := scan afterOperand c rest
      let stop := position + 1 + more
      ⟨lexeme, ⟨position, stop⟩⟩ :: tokensFrom stop lexeme.endsOperand (rest.drop more)
termination_by text => text.length

end Lexer

/-- the tokens of a line -/
def tokens (line : Text) : List Token := Lexer.tokensFrom 0 false line

end Calculator
