/-
The functions that an expression can call.

`Builtin` lists them by name, with the number of arguments each takes and its value. Beside them there are the
logarithms `log_S(x)` to a base `S` that is a decimal numeral, and `log_B(x, base)` to any base; `Callee` is what a name
stands for in a call.
-/
import Calculator.Binary64.Elementary
import Calculator.Binary64.Gcd
import Calculator.Binary64.Integral
import Calculator.Numeral.Reading

namespace Calculator

/-- how many arguments a function takes -/
inductive Arity where
  | exactly (n : Nat)
  | atLeast (n : Nat)
  deriving DecidableEq, Repr

namespace Arity

def accepts : Arity → Nat → Bool
  | exactly n, found => found == n
  | atLeast n, found => n ≤ found

def count (n : Nat) : String := if n = 1 then "1 argument" else s!"{n} arguments"

def message : Arity → String
  | exactly n => count n
  | atLeast n => s!"at least {count n}"

end Arity

/-- the functions of the function table -/
inductive Builtin where
  | ln | log
  | sin | cos | tan | asin | acos | atan
  | sinh | cosh | tanh | asinh | acosh | atanh
  | sqrt | cbrt | floor | ceil | round | abs
  | gcd
  deriving DecidableEq, Repr

namespace Builtin

def all : List Builtin :=
  [ln, log, sin, cos, tan, asin, acos, atan, sinh, cosh, tanh, asinh, acosh, atanh, sqrt, cbrt, floor, ceil, round, abs,
   gcd]

def name : Builtin → String
  | ln => "ln"
  | log => "log"
  | sin => "sin"
  | cos => "cos"
  | tan => "tan"
  | asin => "asin"
  | acos => "acos"
  | atan => "atan"
  | sinh => "sinh"
  | cosh => "cosh"
  | tanh => "tanh"
  | asinh => "asinh"
  | acosh => "acosh"
  | atanh => "atanh"
  | sqrt => "sqrt"
  | cbrt => "cbrt"
  | floor => "floor"
  | ceil => "ceil"
  | round => "round"
  | abs => "abs"
  | gcd => "gcd"

/-- the function of one number; all but the greatest common divisor are -/
def unary? : Builtin → Option (Binary64 → Binary64)
  | ln => some Binary64.ln
  | log => some Binary64.log10
  | sin => some Binary64.sin
  | cos => some Binary64.cos
  | tan => some Binary64.tan
  | asin => some Binary64.asin
  | acos => some Binary64.acos
  | atan => some Binary64.atan
  | sinh => some Binary64.sinh
  | cosh => some Binary64.cosh
  | tanh => some Binary64.tanh
  | asinh => some Binary64.asinh
  | acosh => some Binary64.acosh
  | atanh => some Binary64.atanh
  | sqrt => some Binary64.sqrt
  | cbrt => some Binary64.cbrt
  | floor => some Binary64.floor
  | ceil => some Binary64.ceil
  | round => some Binary64.round
  | abs => some Binary64.abs
  | gcd => none

end Builtin

/-- what the name of a call stands for -/
inductive Callee where
  | builtin (f : Builtin)
  /-- the logarithm to a fixed base, by its text and its number -/
  | logBase (text : Text) (base : Binary64)
  | logAnyBase
  deriving DecidableEq

namespace Callee

def arity : Callee → Arity
  | builtin .gcd => .atLeast 1
  | builtin _ => .exactly 1
  | logBase .. => .exactly 1
  | logAnyBase => .exactly 2

def usage : Callee → String
  | builtin .gcd => "gcd(x, ...)"
  | builtin f => s!"{f.name}(x)"
  | logBase text _ => s!"log_{String.ofList text}(x)"
  | logAnyBase => "log_B(x, base)"

/-- The value of a call. With a number of arguments that the arity does not accept, which a call never comes to, it is
NaN. -/
def value : Callee → List Binary64 → Binary64
  | builtin f, x :: others =>
    match f.unary? with
    | some function => function x
    | none => others.foldl Binary64.gcd x
  | logBase _ base, [x] => x.log base
  | logAnyBase, [x, base] => x.log base
  | _, _ => .nan

end Callee

end Calculator
