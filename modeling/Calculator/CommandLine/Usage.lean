/-
What can be wrong with a command line, and how it is said.
-/
import Calculator.CommandLine.Files
import Calculator.CommandLine.Flag
import Calculator.Text.Quoted

namespace Calculator.CommandLine

inductive UsageError where
  /-- an abbreviation of more than one flag -/
  | ambiguous (argument : Text) (candidates : List Flag)
  /-- a value for a flag that takes none -/
  | ignoredValue (flag : Flag) (value : Text)
  | missingValue (flag : Flag)
  | cannotOpen (name : Text) (fault : OpenFault)
  | conflict (flag rival : Flag)
  | unrecognized (arguments : List Text)
  /-- expressions beside a file or a prompt -/
  | twoSources
  deriving DecidableEq

namespace UsageError

/-- a message about one flag -/
def about (flag : Flag) (message : String) : String := s!"argument {flag.label}: {message}"

def message : UsageError → String
  | ambiguous argument candidates =>
    let names := ", ".intercalate (candidates.map fun f => "--" ++ f.word)
    s!"ambiguous option: {String.ofList argument} could match {names}"
  | ignoredValue flag value => about flag s!"ignored explicit argument {String.ofList (quoted value)}"
  | missingValue flag => about flag "expected one argument"
  | cannotOpen name .nullCharacter => about .file s!"invalid FileType('r') value: {String.ofList (quoted name)}"
  | cannotOpen name fault =>
    let reason := s!"[Errno {fault.number}] {fault.message}: {String.ofList (quoted name)}"
    about .file s!"can't open '{String.ofList name}': {reason}"
  | conflict flag rival => about flag s!"not allowed with argument {rival.label}"
  | unrecognized arguments => "unrecognized arguments: " ++ " ".intercalate (arguments.map String.ofList)
  | twoSources => "expressions given both as arguments and from --file or --prompt"

/-- the message as it is printed -/
def text (e : UsageError) : String := s!"maths: error: {e.message}"

end UsageError

end Calculator.CommandLine
