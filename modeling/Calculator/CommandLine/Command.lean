/-
Running a command line.

The lines of input are the expressions among the arguments, or else those of a file, of an interactive session, or of
the standard input. An interactive session takes place when a prompt is asked for, or on a terminal. It ends with the
end of input, or with an interrupt, which discards a line that is still to be continued and makes the command fail.

`Settings.advance` does with some lines what the settings say and keeps the session for the lines to come; `perform`
does it with a whole input, and `Settings.hear` with one line at a time, as it is typed. `run` is the whole command,
against files, standard input and what a user types.
-/
import Calculator.CommandLine.Grammar
import Calculator.CommandLine.Settings

namespace Calculator.CommandLine

/-! ## Input -/

/-- where the lines of input come from -/
inductive Source where
  | lines (lines : List Text)
  | standardInput
  | interactive (prompt : Text)
  deriving DecidableEq

def Settings.source (s : Settings) (terminal : Bool) : Source :=
  if !s.expressions.isEmpty then .lines s.expressions
  else
    match s.file with
    | some (.contents text) => .lines (splitLines text)
    | some .standardInput => .standardInput
    | some .unnamed => .lines []
    | none =>
      if s.prompts then .interactive (s.prompt.getD defaultPrompt)
      else if terminal then .interactive defaultPrompt
      else .standardInput

/-- lines of input, and whether an interrupt ended them -/
structure Input where
  lines : List Text
  interrupted : Bool := false

/-- what a user types: a line, or an interrupt -/
abbrev Typed := Option Text

/-- what is typed before an interrupt -/
def Input.ofTyped (typed : List Typed) : Input :=
  ⟨(typed.takeWhile Option.isSome).filterMap id, typed.any Option.isNone⟩

/-- The complete lines of an input. A line that is still to be continued is lost at an interrupt, and complete at the end
of input. -/
def Input.joined (input : Input) : List Text :=
  let j := joinFrom [] input.lines
  if input.interrupted then j.lines else j.flush

/-! ## Output -/

/-- lines printed as results, and lines printed as diagnostics -/
structure Output where
  stdout : List String
  stderr : List String

/-- lines of output as one text -/
def printed (lines : List String) : String := String.join (lines.map fun line => s!"{line}\n")

/-- Evaluates lines, or dumps their tokens. A command that prints the grammar does nothing with lines. -/
def Settings.advance (s : Settings) (session : Session) (lines : List Text) : Session × Output :=
  match s.action with
  | .evaluate =>
    let (session, reports) := session.run lines
    (session, ⟨reports.flatMap (Report.resultLines s.style), reports.flatMap (Report.diagnosticLines s.style)⟩)
  | .dump => (session, ⟨lines.flatMap dumpLines, []⟩)
  | .printGrammar => (session, ⟨[], []⟩)

/-- what is printed before the first line of input -/
def Settings.heading (s : Settings) : List String :=
  match s.action with
  | .evaluate => []
  | .dump => [dumpHeading]
  | .printGrammar => lexicalGrammar

/-- what a command prints, and whether it fails -/
structure Result where
  stdout : List String
  stderr : List String
  failed : Bool

/-- does with the lines of input what is asked for -/
def perform (s : Settings) (input : Input) : Result :=
  let (session, output) := s.advance {} input.joined
  let interrupted := input.interrupted && s.action ≠ .printGrammar
  ⟨s.heading ++ output.stdout, output.stderr, session.failed || interrupted || s.file = some .unnamed⟩

/-! ## Conversations -/

/-- where a conversation stands: the session so far, and the beginning of a line that is to be continued -/
structure Conversation where
  session : Session := {}
  pending : Text := []

/-- does with a line what is asked for as soon as it is typed -/
def Settings.hear (s : Settings) (c : Conversation) (line : Text) : Conversation × Output :=
  let j := joinFrom c.pending [line]
  let (session, output) := s.advance c.session j.lines
  (⟨session, j.pending⟩, output)

/-- does with what is still to be continued at the end of input what is asked for -/
def Settings.conclude (s : Settings) (c : Conversation) : Session × Output :=
  s.advance c.session (Joined.mk [] c.pending).flush

/-! ## The command -/

/-- what a command meets: files, standard input, whether it is on a terminal, and what the user types there -/
structure Surroundings where
  openFile : Text → Except OpenFault Text
  standardInput : Text := []
  terminal : Bool := false
  typed : List Typed := []

def Surroundings.input (world : Surroundings) : Source → Input
  | .lines lines => { lines := lines }
  | .standardInput => { lines := splitLines world.standardInput }
  | .interactive _ => Input.ofTyped world.typed

inductive Outcome where
  | usageError (error : UsageError)
  | help
  /-- what is printed, and the prompt of the session if there was an interactive one -/
  | completed (result : Result) (prompt : Option Text)

/-- the prompt of a command that reads what the user types -/
def Settings.openedPrompt (s : Settings) (terminal : Bool) : Option Text :=
  match s.action, s.source terminal with
  | .printGrammar, _ => none
  | _, .interactive prompt => some prompt
  | _, _ => none

/-- the whole command -/
def run (world : Surroundings) (arguments : List Text) : Outcome :=
  match request world.openFile arguments with
  | .error error => .usageError error
  | .ok .help => .help
  | .ok (.run settings) =>
    let input := world.input (settings.source world.terminal)
    .completed (perform settings input) (settings.openedPrompt world.terminal)

end Calculator.CommandLine
