/-
Opening a file by its name.

`OpenFault` lists why a file cannot be read, with the number and the words that the system has for it. `Directory` is a
directory held in memory, against which a command line can be run without touching the disk.
-/
import Calculator.Text

namespace Calculator.CommandLine

inductive OpenFault where
  | missing
  | denied
  | notDirectory
  | isDirectory
  | nameTooLong
  /-- the name holds a null character, which no file has -/
  | nullCharacter
  deriving DecidableEq, Repr

namespace OpenFault

/-- the number that the system has for a fault -/
def number : OpenFault → Nat
  | missing => 2
  | denied => 13
  | notDirectory => 20
  | isDirectory => 21
  | nameTooLong => 36
  | nullCharacter => 22

def message : OpenFault → String
  | missing => "No such file or directory"
  | denied => "Permission denied"
  | notDirectory => "Not a directory"
  | isDirectory => "Is a directory"
  | nameTooLong => "File name too long"
  | nullCharacter => "Invalid argument"

/-- the fault of a number of the system; any other is taken for a missing file -/
def ofNumber (n : Nat) : OpenFault :=
  ([denied, notDirectory, isDirectory, nameTooLong].find? (·.number == n)).getD missing

end OpenFault

/-- the parts of a path between its slashes -/
def pathParts : Text → List Text
  | [] => [[]]
  | c :: rest =>
    if c = '/' then [] :: pathParts rest
    else
      match pathParts rest with
      | [] => [[c]]
      | part :: parts => (c :: part) :: parts

/-- a part of a path that stays where it is -/
def isHere (part : Text) : Bool := part.isEmpty || part == ['.']

def isUp (part : Text) : Bool := part == ['.', '.']

/-- files by their paths, which are relative to the directory -/
abbrev Directory := List (List Text × Text)

namespace Directory

/-- the directory that holds these files -/
def ofFiles (files : List (Text × Text)) : Directory :=
  files.map fun (name, contents) => ((pathParts name).filter (!isHere ·), contents)

/-- Follows a path from a place in the directory, or from outside of it, where nothing but directories is known. -/
def walk (dir : Directory) (place : Option (List Text)) : List Text → Except OpenFault Text
  | [] => .error .isDirectory
  | part :: parts =>
    if isHere part then walk dir place parts
    else if isUp part then walk dir (place.bind fun p => if p.isEmpty then none else some p.dropLast) parts
    else if 255 < (String.ofList part).utf8ByteSize then .error .nameTooLong
    else
      match place.map (· ++ [part]) with
      | none => .error .missing
      | some next =>
        match dir.lookup next with
        | some contents => if parts.isEmpty then .ok contents else .error .notDirectory
        | none => if dir.any fun file => next.isPrefixOf file.1 then walk dir (some next) parts else .error .missing

/-- the contents of a file, by its name -/
def openFile (dir : Directory) (name : Text) : Except OpenFault Text :=
  if '\x00' ∈ name then .error .nullCharacter
  else if 4096 ≤ (String.ofList name).utf8ByteSize then .error .nameTooLong
  else
    match name with
    | [] => .error .missing
    | '/' :: rest => walk dir none (pathParts rest)
    | _ => walk dir (some []) (pathParts name)

end Directory

end Calculator.CommandLine
