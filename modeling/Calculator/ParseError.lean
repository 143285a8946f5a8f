/-
Why a line is no expression, where, and inside which parts of it.

The context of an error is the list of the parts of the line that were being read, innermost first: the text of the
line or of an argument, and the call that an argument belongs to.
-/
import Calculator.Token

namespace Calculator

inductive ParseFault where
  | unexpected (mark : Punctuation)
  | letDeclaration
  | invalid (text : Text)
  | unterminatedCall
  deriving DecidableEq

def ParseFault.message : ParseFault → String
  | unexpected mark => s!"Unexpected token: '{mark.symbol}'"
  | letDeclaration => "`let` declarations are not supported"
  | invalid text => s!"Invalid token: '{String.ofList text}'"
  | unterminatedCall => "Unterminated call: expected ), found end of input"

/-- a part of a line that is being read -/
inductive ParseFrame where
  /-- the line, or one argument -/
  | source (text : Text)
  | call (name : String)
  deriving DecidableEq

def ParseFrame.message : ParseFrame → String
  | source text => s!"while parsing: `{String.ofList text}`"
  | call name => s!"while parsing: `{name}(`"

structure ParseError where
  fault : ParseFault
  /-- the token at fault, where there is one -/
  span : Option Span
  context : List ParseFrame
  deriving DecidableEq

/-- an error inside one more part of the line -/
def ParseError.inside (frame : ParseFrame) (e : ParseError) : ParseError :=
  { e with context := e.context ++ [frame] }

end Calculator
