/-
Why an expression has no value, and inside which parts of it.

The context of an error is the path from the place of the fault to the root of the expression, innermost first: every
sequence and call on it, and every operand that an operator was evaluating.
-/
import Calculator.Environment
import Calculator.Expr
import Calculator.Postfix

namespace Calculator

inductive EvalFault where
  | undeclared (name : String)
  | bareOperator (op : Operator)
  | unmatched (side : Unmatched)
  | missingOperand (op : Operator)
  /-- operands without an operator between them, or none at all -/
  | invalidExpression
  | notApplicable (op : Operator)
  | wrongArity (callee : Callee) (found : Nat)
  | call (fault : CallFault)
  deriving DecidableEq

def Unmatched.message : Unmatched → String
  | left => "Unmatched '('"
  | right => "Unmatched ')': expected operator, found end of input"

def CallFault.message : CallFault → String
  | invalidBase base =>
    s!"Invalid log base: {String.ofList base}, specify the base in decimal, for example: `log_2(x)`"
  | unknown name => s!"Unknown function: '{name}'"

def EvalFault.message : EvalFault → String
  | undeclared name => s!"Undeclared variable or constant: '{name}'"
  | bareOperator op => s!"Expected expression, found operator '{String.ofList op.symbol}'"
  | unmatched side => side.message
  | missingOperand op => s!"Missing operand for '{String.ofList op.symbol}'"
  | invalidExpression => "Invalid expression"
  | notApplicable op => s!"Cannot apply {String.ofList op.symbol}"
  | wrongArity callee found =>
    s!"Expected {callee.arity.message}, found {found}. Usage: `{callee.usage}`"
  | call fault => fault.message

/-- a part of an expression that is being evaluated -/
inductive EvalFrame where
  /-- a sequence or a call -/
  | node (e : Expr)
  /-- an operand of an operator -/
  | operand (e : Expr)

def EvalFrame.message : EvalFrame → String
  | node e => s!"while evaluating: `{String.ofList e.text}`"
  | operand e => s!"while evaluating operand: `{String.ofList e.text}`"

structure EvalError where
  fault : EvalFault
  context : List EvalFrame

/-- an error inside one more part of the expression -/
def EvalError.inside (frame : EvalFrame) (e : EvalError) : EvalError := { e with context := e.context ++ [frame] }

end Calculator
