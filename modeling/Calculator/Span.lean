/-
Spans of a line, and how a span is shown to the user.

`highlight` prints two rows: the stretch of the line around a span, with up to 20 characters of context on either side,
and below it carets under the characters of the span.
-/
import Calculator.Text

namespace Calculator

/-- the characters of a line from offset `start` on, before offset `stop` -/
structure Span where
  start : Nat
  stop : Nat
  deriving DecidableEq, Repr

namespace Span

/-- how many characters of a line are shown on either side of a span -/
def context : Nat := 20

def length (s : Span) : Nat := s.stop - s.start

/-- the text of a span -/
def text (s : Span) (line : Text) : Text := (line.drop s.start).take s.length

/-- the offset at which the excerpt of a span begins -/
def excerptStart (s : Span) : Nat := s.start - context

/-- the stretch of the line around a span, without newlines at its end -/
def excerpt (s : Span) (line : Text) : Text :=
  dropEndWhile (· == '\n') ((line.drop s.excerptStart).take (s.stop + context - s.excerptStart))

/-- the row below the excerpt -/
def carets (s : Span) : Text := List.replicate (s.start - s.excerptStart) ' ' ++ List.replicate s.length '^'

def highlight (s : Span) (line : Text) : Text := s.excerpt line ++ '\n' :: s.carets

end Span

end Calculator
