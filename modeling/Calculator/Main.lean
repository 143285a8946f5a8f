/-
The command: it reads arguments, files, the standard input and what is typed, and prints. What to print is decided by
the modules of the command line.
-/
import Calculator.CommandLine.Command

namespace Calculator

open CommandLine

/-- the contents of the files that a command line mentions, or why they cannot be read -/
def readFiles (names : List Text) : IO (List (Text × Except OpenFault Text)) :=
  names.mapM fun name => do
    try
      let contents ← IO.FS.readFile (String.ofList name)
      return (name, .ok contents.toList)
    catch
      | .noFileOrDirectory _ code _ | .permissionDenied _ code _ | .inappropriateType _ code _
      | .invalidArgument _ code _ | .otherError code _ => return (name, .error (.ofNumber code.toNat))
      | _ => return (name, .error .missing)

def printOutput (output : Output) : IO Unit := do
  IO.eprint (printed output.stderr)
  IO.print (printed output.stdout)
  (← IO.getStdout).flush

/-- prompts for lines until the end of input, and does with each what is asked for -/
partial def converse (settings : Settings) (prompt : Text) (c : Conversation) : IO Session := do
  IO.print (String.ofList prompt)
  (← IO.getStdout).flush
  let line ← (← IO.getStdin).getLine
  if line.isEmpty then
    let (session, output) := settings.conclude c
    printOutput output
    return session
  let (c, output) := settings.hear c line.toList
  printOutput output
  converse settings prompt c

/-- runs a command on what its lines come from -/
def execute (settings : Settings) (terminal : Bool) : IO UInt32 := do
  let finish (input : Input) : IO UInt32 := do
    let result := perform settings input
    printOutput ⟨result.stdout, result.stderr⟩
    return if result.failed then 1 else 0
  match settings.action, settings.source terminal with
  | .printGrammar, _ => finish ⟨[], false⟩
  | _, .lines lines => finish ⟨lines, false⟩
  | _, .standardInput => finish ⟨splitLines (← (← IO.getStdin).readToEnd).toList, false⟩
  | _, .interactive prompt =>
    printOutput ⟨settings.heading, []⟩
    let session ← converse settings prompt {}
    return if session.failed then 1 else 0

def helpLines : List String :=
  "usage: maths [options] [expression ...]" :: Flag.all.map fun f => s!"  -{f.letter}, --{f.word}: {f.purpose}"

/-- the command: its arguments, and the status it ends with -/
def command (arguments : List Text) : IO UInt32 := do
  let files ← readFiles (fileNames arguments)
  let terminal := (← (← IO.getStdin).isTty) && (← (← IO.getStdout).isTty)
  match request (fun name => (files.lookup name).getD (.error .missing)) arguments with
  | .error error =>
    IO.eprintln error.text
    return 2
  | .ok .help =>
    IO.print (printed helpLines)
    return 0
  | .ok (.run settings) => execute settings terminal

end Calculator

def main (arguments : List String) : IO UInt32 := Calculator.command (arguments.map String.toList)
