/-
A session: one line after the other, against variables that stay.

`report` is what comes of one line: its value, or what is wrong with it. `Session.step` evaluates a line unless it is
empty, and after a success keeps the value as the variable `ans`. A line that fails changes nothing but the status.
What is printed of a report is a function of the report and the style of output.
-/
import Calculator.Evaluation
import Calculator.Expr.Parser
import Calculator.Failure
import Calculator.Text.Blank
import Calculator.Text.Quoted

namespace Calculator

/-! ## One line -/

/-- what comes of a line -/
inductive Verdict where
  | malformed (error : ParseError)
  | failed (expr : Expr) (error : EvalError)
  | value (expr : Expr) (value : Binary64)

/-- a line, the log of its evaluation, and what comes of it -/
structure Report where
  line : Text
  log : List OrderStep
  verdict : Verdict

/-- parses and evaluates a line -/
def report (env : Environment) (line : Text) : Report :=
  match Expr.parse line with
  | .error error => ⟨line, [], .malformed error⟩
  | .ok expr =>
    let evaluated := expr.eval env
    match evaluated.result with
    | .error error => ⟨line, evaluated.log, .failed expr error⟩
    | .ok value => ⟨line, evaluated.log, .value expr value⟩

namespace Report

def value? (r : Report) : Option Binary64 :=
  match r.verdict with
  | .value _ value => some value
  | _ => none

def failure? (r : Report) : Option Failure :=
  match r.verdict with
  | .malformed error => some (.parse error)
  | .failed _ error => some (.eval error)
  | .value .. => none

def expr? (r : Report) : Option Expr :=
  match r.verdict with
  | .malformed _ => none
  | .failed expr _ | .value expr _ => some expr

end Report

/-! ## Many lines -/

/-- the variable that holds the result before -/
def answerName : String := "ans"

structure Session where
  env : Environment := {}
  /-- whether a line has failed -/
  failed : Bool := false

namespace Session

/-- the session after a report -/
def after (s : Session) (r : Report) : Session :=
  match r.value? with
  | some value => { s with env := s.env.assign answerName value }
  | none => { s with failed := true }

/-- evaluates a line, unless it is empty -/
def step (s : Session) (line : Text) : Session × Option Report :=
  if isEmptyLine line then (s, none)
  else
    let r := report s.env line
    (s.after r, some r)

/-- evaluates lines in order -/
def run (s : Session) : List Text → Session × List Report
  | [] => (s, [])
  | line :: lines =>
    let (s, r) := s.step line
    let (s, rs) := s.run lines
    (s, r.toList ++ rs)

theorem run_append (s : Session) (lines more : List Text) :
    s.run (lines ++ more) =
      (((s.run lines).1.run more).1, (s.run lines).2 ++ ((s.run lines).1.run more).2) := by
  induction lines generalizing s with
  | nil => rfl
  | cons line lines ih => simp [run, ih]

end Session

/-! ## Output -/

/-- how results are printed -/
structure Style where
  radix : Radix := .decimal
  /-- the result alone, without its expression -/
  quiet : Bool := false
  /-- with the log of what happens -/
  verbose : Bool := false
  deriving DecidableEq

/-- the line of the log for a sequence that is brought into order -/
def OrderStep.message (s : OrderStep) : String :=
  let order := String.ofList (Expr.sequence s.order).text
  s!"maths.evaluator: DEBUG: postfix of {String.ofList (Expr.sequence s.sequence).text}: {order}"

namespace Report

/-- the line that a result is printed on; nothing for a failure -/
def resultLines (style : Style) (r : Report) : List String :=
  match r.verdict with
  | .value expr value =>
    let result := String.ofList (value.render style.radix)
    [if style.quiet then result else s!"{String.ofList expr.text} = {result}"]
  | _ => []

/-- the log of a line: what it was parsed as, each sequence brought into order, and whether it failed -/
def logLines (r : Report) : List String :=
  let line := String.ofList (quoted r.line)
  let parsed := r.expr?.toList.map fun e => s!"maths.parser: DEBUG: parsed {line} as {String.ofList e.text}"
  let failed := if r.failure?.isSome then [s!"maths.cli: DEBUG: Failed on {line}", "<traceback>"] else []
  parsed ++ r.log.map OrderStep.message ++ failed

/-- the token at fault below its line, and what is wrong -/
def failureLines (r : Report) : List String :=
  match r.failure? with
  | some failure => (failure.span.map fun span => String.ofList (span.highlight r.line)).toList ++ [failure.text]
  | none => []

/-- what is printed of a line that is no result -/
def diagnosticLines (style : Style) (r : Report) : List String :=
  (if style.verbose then r.logLines else []) ++ r.failureLines

end Report

/-! ## Tokens -/

/-- the heading of the token dump -/
def dumpHeading : String := "<kind>\t<repr(text)>\t<span>"

/-- the line of a token in the token dump: kind, text and span -/
def Token.dumpLine (line : Text) (t : Token) : String :=
  s!"{t.lexeme.kindName}\t{String.ofList (quoted (t.span.text line))}\t{t.span.start}..{t.span.stop}"

/-- the lines of the token dump for a line of input -/
def dumpLines (line : Text) : List String := (tokens line).map (Token.dumpLine line)

end Calculator
