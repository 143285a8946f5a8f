/-
What a command line asks for.

`request` goes through what was read from the command line, in order. A file is opened when its flag is met, before the
flag is checked against its rival. Arguments that have no place are reported together at the end.
-/
import Calculator.CommandLine.Arguments
import Calculator.Lines
import Calculator.Session

namespace Calculator.CommandLine

/-- where a file of expressions comes from -/
inductive FileSource where
  | standardInput
  | contents (text : Text)
  /-- no file, where the name was left out: there are no lines, and the command fails -/
  | unnamed
  deriving DecidableEq

/-- what is done with the lines of input -/
inductive Action where
  | evaluate
  | dump
  | printGrammar
  deriving DecidableEq, Repr

structure Settings where
  style : Style := {}
  action : Action := .evaluate
  file : Option FileSource := none
  prompt : Option Text := none
  expressions : List Text := []

/-- the prompt of a session that names none -/
def defaultPrompt : Text := ['>', ' ']

/-- the file of the value of a file flag; a dash is the standard input -/
def openSource (openFile : Text → Except OpenFault Text) : Option Text → Except UsageError FileSource
  | none => .ok .unnamed
  | some name =>
    if name = ['-'] then .ok .standardInput
    else
      match openFile name with
      | .ok contents => .ok (.contents contents)
      | .error fault => .error (.cannotOpen name fault)

/-- the settings after a flag -/
def Settings.set (openFile : Text → Except OpenFault Text) (s : Settings) (f : Flag) (value : Option Text) :
    Except UsageError Settings :=
  match f with
  | .help => .ok s
  | .verbose => .ok { s with style := { s.style with verbose := true } }
  | .quiet => .ok { s with style := { s.style with quiet := true } }
  | .hex => .ok { s with style := { s.style with radix := .hexadecimal } }
  | .bin => .ok { s with style := { s.style with radix := .binary } }
  | .file => do
    let source ← openSource openFile value
    return { s with file := some source }
  | .prompt => .ok { s with prompt := some (value.getD defaultPrompt) }
  | .rawGrammar => .ok { s with action := .printGrammar }
  | .dump => .ok { s with action := .dump }

/-- whether a prompt was given that is not empty -/
def Settings.prompts (s : Settings) : Bool := (s.prompt.getD []) != []

inductive Request where
  | help
  | run (settings : Settings)

/-- what has been gone through of a command line -/
structure Progress where
  settings : Settings := {}
  seen : List Flag := []
  leftOver : List Text := []

/-- the settings at the end of the command line -/
def Progress.finish (p : Progress) : Except UsageError Request :=
  if !p.leftOver.isEmpty then .error (.unrecognized p.leftOver)
  else if !p.settings.expressions.isEmpty && (p.settings.file.isSome || p.settings.prompts) then .error .twoSources
  else .ok (.run p.settings)

/-- goes through what was read; a flag for help ends it -/
def gather (openFile : Text → Except OpenFault Text) (p : Progress) : List Occurrence → Except UsageError Request
  | [] => p.finish
  | .fault error :: _ => .error error
  | .operand text :: rest =>
    gather openFile { p with settings := { p.settings with expressions := p.settings.expressions ++ [text] } } rest
  | .leftOver text :: rest => gather openFile { p with leftOver := p.leftOver ++ [text] } rest
  | .flag f value :: rest =>
    if f = .help then .ok .help
    else
      match p.settings.set openFile f value with
      | .error error => .error error
      | .ok settings =>
        match f.rival?.filter (· ∈ p.seen) with
        | some rival => .error (.conflict f rival)
        | none => gather openFile { p with settings := settings, seen := p.seen ++ [f] } rest

/-- what a command line asks for -/
def request (openFile : Text → Except OpenFault Text) (arguments : List Text) : Except UsageError Request :=
  gather openFile {} (read arguments)

/-- the names of the files that a command line mentions -/
def fileNames (arguments : List Text) : List Text :=
  (read arguments).filterMap fun
    | .flag .file value => value
    | _ => none

end Calculator.CommandLine
