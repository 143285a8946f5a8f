/-
Reading the arguments of a command line.

`Shape.of` tells what one argument is by its look: a flag, possibly abbreviated or with a value attached, an operand, or
an unknown flag. A negative number and a text with a space are operands although they begin with a dash. Behind `--`
everything is an operand.

`occurrences` reads the shapes from left to right. Letters may be joined behind one dash, up to the first flag that
takes a value: whatever follows its letter is the value. An argument in which anything but the letter of a flag follows
a flag without a value is refused as a whole. All operands stand together: those behind the first group are left over,
like unknown flags.
-/
import Calculator.CommandLine.Usage
import Calculator.Text.DecimalDigit

namespace Calculator.CommandLine

/-! ## One argument -/

/-- what an argument is by its look -/
inductive Shape where
  | operand
  | separator
  /-- a flag, whether by its letter, and what is attached to it in the same argument -/
  | flag (f : Flag) (byLetter : Bool) (attached : Option Text)
  | unknown
  deriving DecidableEq

def isDecimalDigit (c : Char) : Bool := (decimalDigit? c).isSome

/-- digits, with or without a point before the last of them; a newline at the end does not count -/
def isUnsignedNumber (text : Text) : Bool :=
  let body := if text.getLast? = some '\n' then text.dropLast else text
  let whole := body.takeWhile isDecimalDigit
  match body.dropWhile isDecimalDigit with
  | [] => !whole.isEmpty
  | '.' :: fraction => !fraction.isEmpty && fraction.all isDecimalDigit
  | _ => false

/-- the text before the first equals sign, and the value behind it -/
def splitValue (argument : Text) : Text × Option Text :=
  match argument.dropWhile (· != '=') with
  | [] => (argument, none)
  | _ :: value => (argument.takeWhile (· != '='), some value)

/-- the flags that an argument which is not an exact spelling may mean -/
def candidates (argument : Text) : List (Flag × Bool × Option Text) :=
  match argument with
  | '-' :: '-' :: _ =>
    let (name, attached) := splitValue argument
    (Flag.abbreviatedBy name).map (·, false, attached)
  | '-' :: c :: rest => (Flag.ofLetter? c).toList.map (·, true, some rest)
  | _ => []

/-- what an argument that begins with a dash is -/
def Shape.ofDashed (argument : Text) : Except UsageError Shape :=
  let (name, attached) := splitValue argument
  match Flag.ofSpelling? argument, attached.bind fun _ => Flag.ofSpelling? name with
  | some (f, byLetter), _ => .ok (.flag f byLetter none)
  | none, some (f, byLetter) => .ok (.flag f byLetter attached)
  | none, none =>
    match candidates argument with
    | [(f, byLetter, attached)] => .ok (.flag f byLetter attached)
    | [] => .ok (if isUnsignedNumber argument.tail || ' ' ∈ argument then .operand else .unknown)
    | several => .error (.ambiguous argument (several.map (·.1)))

def Shape.of (argument : Text) : Except UsageError Shape :=
  match argument with
  | '-' :: _ :: _ => Shape.ofDashed argument
  | _ => .ok .operand

/-- the arguments with their shapes -/
def shapes : List Text → Except UsageError (List (Text × Shape))
  | [] => .ok []
  | argument :: rest =>
    if argument = ['-', '-'] then .ok ((argument, .separator) :: rest.map (·, .operand))
    else do
      let shape ← Shape.of argument
      return (argument, shape) :: (← shapes rest)

/-! ## Joined letters -/

/-- The flags of one argument, with the values attached to them. A last flag without anything attached to it may still
take its value from the next argument. -/
structure Cluster where
  flags : List (Flag × Option Text)
  last? : Option Flag

/-- the value that is attached to a flag; two dashes stand for a value that is left out -/
def attachedValue (text : Text) : Option Text := if text = ['-', '-'] then none else some text

/-- the flags of an argument with text attached to the first: the value of that flag, or the letters of more flags -/
def readAttached (f : Flag) (byLetter : Bool) (text : Text) : Except UsageError Cluster :=
  if f.valueRule ≠ .none then .ok ⟨[(f, attachedValue text)], none⟩
  else
    match text with
    | [] => .error (.ignoredValue f [])
    | c :: rest =>
      match if byLetter then Flag.ofLetter? c else none with
      | none => .error (.ignoredValue f (c :: rest))
      | some g => do
        let others ← if rest.isEmpty then .ok ⟨[], some g⟩ else readAttached g true rest
        return { others with flags := (f, none) :: others.flags }

/-- the flags of one argument -/
def readFlags (f : Flag) (byLetter : Bool) : Option Text → Except UsageError Cluster
  | none => .ok ⟨[], some f⟩
  | some text => readAttached f byLetter text

/-! ## All arguments -/

/-- what is read from a command line, in order -/
inductive Occurrence where
  | flag (f : Flag) (value : Option Text)
  | operand (text : Text)
  /-- an argument that has no place -/
  | leftOver (text : Text)
  | fault (error : UsageError)
  deriving DecidableEq

/-- where the group of operands is -/
inductive Place where
  | before
  | inside
  | behind
  deriving DecidableEq

/-- a flag ends the group -/
def Place.afterFlag : Place → Place
  | before => before
  | _ => behind

/-- the occurrences of arguments, up to the first fault -/
def occurrences (place : Place) : List (Text × Shape) → List Occurrence
  | [] => []
  | (argument, .operand) :: rest =>
    if place = .behind then .leftOver argument :: occurrences .behind rest
    else .operand argument :: occurrences .inside rest
  | (argument, .separator) :: rest =>
    if place = .behind then .leftOver argument :: occurrences .behind rest else occurrences .inside rest
  | (argument, .unknown) :: rest => .leftOver argument :: occurrences place.afterFlag rest
  | (_, .flag f byLetter attached) :: rest =>
    match readFlags f byLetter attached with
    | .error error => [.fault error]
    | .ok cluster =>
      let flags := cluster.flags.map fun (f, value) => .flag f value
      match cluster.last? with
      | none => flags ++ occurrences place.afterFlag rest
      | some last =>
        match last.valueRule, rest with
        | .none, rest => flags ++ .flag last none :: occurrences place.afterFlag rest
        | _, (value, .operand) :: rest => flags ++ .flag last (some value) :: occurrences place.afterFlag rest
        | .optional, rest => flags ++ .flag last none :: occurrences place.afterFlag rest
        | .required, _ => [.fault (.missingValue last)]
termination_by arguments => arguments.length

/-- what is read from a command line; an ambiguous abbreviation is found before anything else -/
def read (arguments : List Text) : List Occurrence :=
  match shapes arguments with
  | .error error => [.fault error]
  | .ok shaped => occurrences .before shaped

end Calculator.CommandLine
