/-
What is reported of a line without a value: the message of the fault, and below it the context, innermost first.
-/
import Calculator.EvalError
import Calculator.ParseError

namespace Calculator

/-- a line that is no expression, or an expression without a value -/
inductive Failure where
  | parse (error : ParseError)
  | eval (error : EvalError)

namespace Failure

/-- what is wrong, without the context -/
def message : Failure → String
  | parse e => e.fault.message
  | eval e => e.fault.message

/-- where it is wrong, innermost part first -/
def context : Failure → List String
  | parse e => e.context.map ParseFrame.message
  | eval e => e.context.map EvalFrame.message

/-- the token at fault; an expression without a value has none -/
def span : Failure → Option Span
  | parse e => e.span
  | eval _ => none

/-- message and context, each line of the context indented -/
def text (f : Failure) : String := "\n    ".intercalate (f.message :: f.context)

end Failure

end Calculator
