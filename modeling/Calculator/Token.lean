/-
The tokens of a line: what they are, and where they stand.

Only parentheses and the nine operators mean something in an expression; braces, brackets, the keyword `let` and
characters outside the grammar are tokens too, so that every text has a list of tokens and only the parser refuses it.
-/
import Calculator.Numeral.Radix
import Calculator.Operator
import Calculator.Span

namespace Calculator

/-- marks that are no operators -/
inductive Punctuation where
  | comma
  | leftBrace
  | rightBrace
  | leftBracket
  | rightBracket
  deriving DecidableEq, Repr

def Punctuation.symbol : Punctuation → Char
  | comma => ','
  | leftBrace => '{'
  | rightBrace => '}'
  | leftBracket => '['
  | rightBracket => ']'

/-- what a token is -/
inductive Lexeme where
  | number (value : Binary64) (radix : Radix)
  | name (name : String)
  | operator (op : Operator)
  | punctuation (mark : Punctuation)
  | newline
  | letKeyword
  | endOfInput
  | invalid (text : Text)
  deriving DecidableEq

namespace Lexeme

/-- A minus right behind one of these is a subtraction, and no sign. -/
def endsOperand : Lexeme → Bool
  | number .. | name _ | operator .rightParen => true
  | _ => false

/-- the name of a kind of token in the token dump -/
def kindName : Lexeme → String
  | number .. => "NUMBER"
  | name _ => "IDENT"
  | operator .add => "PLUS"
  | operator .subtract => "MINUS"
  | operator .multiply => "ASTERISK"
  | operator .divide => "SLASH"
  | operator .modulo => "PERCENT"
  | operator .exponent => "EXPONENT"
  | operator .xor => "CARET"
  | operator .bitAnd => "AMPERSAND"
  | operator .bitOr => "PIPE"
  | operator .leftParen => "LPAREN"
  | operator .rightParen => "RPAREN"
  | punctuation .comma => "COMMA"
  | punctuation .leftBrace => "LBRACE"
  | punctuation .rightBrace => "RBRACE"
  | punctuation .leftBracket => "LBRACKET"
  | punctuation .rightBracket => "RBRACKET"
  | newline => "NEWLINE"
  | letKeyword => "LET"
  | endOfInput => "EOF"
  | invalid _ => "INVALID"

end Lexeme

structure Token where
  lexeme : Lexeme
  span : Span
  deriving DecidableEq

end Calculator
