/-
The infix operators: symbol, precedence and meaning.

The two parentheses are operators as well, of the lowest precedence. They only bound groups and have no meaning of
their own (`function?` is `none` on them, and on nothing else: `function?_eq_none_iff`).
-/
import Calculator.Binary64.Elementary
import Calculator.Binary64.Integral
import Calculator.Text

namespace Calculator

inductive Operator where
  | add
  | subtract
  | multiply
  | divide
  | modulo
  | exponent
  | bitAnd
  | xor
  | bitOr
  | leftParen
  | rightParen
  deriving DecidableEq, Repr

namespace Operator

def symbol : Operator → Text
  | add => ['+']
  | subtract => ['-']
  | multiply => ['*']
  | divide => ['/']
  | modulo => ['%']
  | exponent => ['*', '*']
  | bitAnd => ['&']
  | xor => ['^']
  | bitOr => ['|']
  | leftParen => ['(']
  | rightParen => [')']

/-- how tightly an operator binds: the higher, the tighter -/
def precedence : Operator → Nat
  | exponent => 6
  | multiply | divide | modulo => 5
  | add | subtract => 4
  | bitAnd => 3
  | xor => 2
  | bitOr => 1
  | leftParen | rightParen => 0

def isParen : Operator → Bool
  | leftParen | rightParen => true
  | _ => false

/-- the function of numbers that an operator stands for -/
def function? : Operator → Option (Binary64 → Binary64 → Binary64)
  | add => some Binary64.add
  | subtract => some Binary64.sub
  | multiply => some Binary64.mul
  | divide => some Binary64.div
  | modulo => some Binary64.remainder
  | exponent => some Binary64.pow
  | bitAnd => some Binary64.bitAnd
  | xor => some Binary64.bitXor
  | bitOr => some Binary64.bitOr
  | leftParen | rightParen => none

theorem function?_eq_none_iff (o : Operator) : o.function? = none ↔ o.isParen := by
  cases o <;> simp [function?, isParen]

theorem precedence_pos_iff (o : Operator) : 0 < o.precedence ↔ o.isParen = false := by
  cases o <;> simp [precedence, isParen]

end Operator

end Calculator
