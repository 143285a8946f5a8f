/-
From infix to postfix order.

`arrange` keeps a stack of the operators that wait for their second operand. An operator first releases those on top of
the stack that bind at least as tightly as itself, so operators of equal precedence group to the left, exponentiation
included. An opening parenthesis waits until the closing one releases everything above it; parentheses are not part of
the result. The items are whatever stands for an operand, so the order is found without evaluating anything.
-/
import Calculator.Operator

namespace Calculator

/-- an element of a flat sequence -/
inductive Item (α : Type) where
  | operand (a : α)
  | operator (op : Operator)
  deriving DecidableEq

/-- a parenthesis without a partner -/
inductive Unmatched where
  | left
  | right
  deriving DecidableEq, Repr

/-- the items of a sequence in postfix order, with `waiting` operators of which the last one comes first -/
def arrange {α : Type} (waiting : List Operator) : List (Item α) → Except Unmatched (List (Item α))
  | [] => if .leftParen ∈ waiting then .error .left else .ok (waiting.map .operator)
  | .operand a :: items => (arrange waiting items).map (.operand a :: ·)
  | .operator .leftParen :: items => arrange (.leftParen :: waiting) items
  | .operator .rightParen :: items =>
    let released := waiting.takeWhile (· != .leftParen)
    match waiting.dropWhile (· != .leftParen) with
    | [] => .error .right
    | _ :: outer => (arrange outer items).map (released.map .operator ++ ·)
  | .operator op :: items =>
    let released := waiting.takeWhile fun other => op.precedence ≤ other.precedence
    let others := waiting.dropWhile fun other => op.precedence ≤ other.precedence
    (arrange (op :: others) items).map (released.map .operator ++ ·)

/-- the items of a sequence in postfix order -/
def postfixOrder {α : Type} (items : List (Item α)) : Except Unmatched (List (Item α)) := arrange [] items

end Calculator
