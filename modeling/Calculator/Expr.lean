/-
Expressions, and their text.

A line is one flat sequence of operands and operators, parentheses included. Only calls nest, through their arguments,
each of which is a sequence again. Precedence is no part of an expression: it is resolved when a sequence is evaluated.
-/
import Calculator.Numeral.Display
import Calculator.Operator

namespace Calculator

inductive Expr where
  | number (value : Binary64)
  | var (name : String)
  | call (name : String) (arguments : List Expr)
  | sequence (elements : List Expr)
  | operator (op : Operator)

namespace Expr

mutual

/-- the text of an expression: one space between the elements of a sequence, a comma and a space between arguments -/
def text : Expr → Text
  | number value => value.text
  | var name => name.toList
  | call name arguments => name.toList ++ '(' :: joined [',', ' '] (texts arguments) ++ [')']
  | sequence elements => joined [' '] (texts elements)
  | operator op => op.symbol

def texts : List Expr → List Text
  | [] => []
  | e :: es => e.text :: texts es

end

theorem texts_eq_map (es : List Expr) : texts es = es.map text := by
  induction es with
  | nil => rfl
  | cons e es ih => simp [texts, ih]

end Expr

end Calculator
