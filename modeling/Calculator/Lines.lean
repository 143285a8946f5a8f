/-
Lines of input.

A text is cut into lines behind every line feed, carriage return, and pair of the two, and each line keeps a newline in
their place; lines from elsewhere may have none. A line that ends with a backslash goes on in the next one: the backslash
is dropped and the pieces are joined. When the lines run out, a line that is still to be continued counts as complete,
unless it is empty.
-/
import Calculator.Text

namespace Calculator

/-- the lines of a text, with a newline for what ends them -/
def splitLines : Text → List Text
  | [] => []
  | '\r' :: '\n' :: rest => ['\n'] :: splitLines rest
  | c :: rest =>
    if c = '\r' ∨ c = '\n' then ['\n'] :: splitLines rest
    else
      match splitLines rest with
      | [] => [[c]]
      | line :: lines => (c :: line) :: lines

/-- a line without carriage returns and line feeds at its end -/
def withoutEnding (line : Text) : Text := dropEndWhile (fun c => c == '\r' || c == '\n') line

/-- whether a line goes on in the next one -/
def continues (line : Text) : Bool := (withoutEnding line).getLast? == some '\\'

/-- what a line contributes to the line it is part of -/
def piece (line : Text) : Text := if continues line then (withoutEnding line).dropLast else withoutEnding line

/-- complete lines, and the beginning of one that is to be continued -/
structure Joined where
  lines : List Text
  pending : Text
  deriving DecidableEq, Repr

/-- joins lines to what is pending from those before -/
def joinFrom (pending : Text) : List Text → Joined
  | [] => ⟨[], pending⟩
  | line :: rest =>
    if continues line then joinFrom (pending ++ piece line) rest
    else
      let others := joinFrom [] rest
      ⟨(pending ++ piece line) :: others.lines, others.pending⟩

/-- the lines at the end of input, where nothing can continue them any more -/
def Joined.flush (j : Joined) : List Text := if j.pending.isEmpty then j.lines else j.lines ++ [j.pending]

def joinContinuations (lines : List Text) : List Text := (joinFrom [] lines).flush

end Calculator
