/-
The value of an expression.

A sequence is brought into postfix order and run on a stack. Operands are put on the stack unevaluated: an operator
evaluates the two on top, the lower one first, and puts its result there; at the end there must be one left, which is
evaluated if no operator has done so. A call finds out what its name stands for and whether the number of arguments is
right before it evaluates the arguments, from left to right.

Evaluation writes a log with one entry for each sequence that it brings into order. It does not change the environment,
which is an argument here and no state.
-/
import Calculator.EvalError

namespace Calculator

/-! ## Results with a log -/

/-- a sequence that was evaluated, and its elements in postfix order -/
structure OrderStep where
  sequence : List Expr
  order : List Expr

/-- a result, or the error that took its place, and the log written on the way -/
structure Logged (α : Type) where
  log : List OrderStep
  result : Except EvalError α

namespace Logged

def pure {α : Type} (a : α) : Logged α := ⟨[], .ok a⟩

def bind {α β : Type} (x : Logged α) (f : α → Logged β) : Logged β :=
  match x.result with
  | .ok a =>
    let y := f a
    ⟨x.log ++ y.log, y.result⟩
  | .error e => ⟨x.log, .error e⟩

instance : Monad Logged where
  pure := Logged.pure
  bind := Logged.bind

@[simp] theorem pure_eq {α : Type} (a : α) : (Pure.pure a : Logged α) = ⟨[], .ok a⟩ := rfl

theorem bind_eq {α β : Type} (x : Logged α) (f : α → Logged β) :
    x >>= f = match x.result with
      | .ok a => ⟨x.log ++ (f a).log, (f a).result⟩
      | .error e => ⟨x.log, .error e⟩ := rfl

instance : LawfulMonad Logged := LawfulMonad.mk' Logged
  (by rintro α ⟨log, _ | a⟩ <;> simp [Functor.map, Logged.bind, Logged.pure])
  (by intro α β a f; simp [bind_eq])
  (by
    rintro α β γ ⟨log, _ | a⟩ f g
    · rfl
    · simp only [bind_eq]; cases (f a).result <;> simp)

def fail {α : Type} (fault : EvalFault) : Logged α := ⟨[], .error ⟨fault, []⟩⟩

/-- one entry of the log -/
def record (step : OrderStep) : Logged Unit := ⟨[step], .ok ()⟩

/-- an error of this result lies inside one more part of the expression -/
def inside {α : Type} (frame : EvalFrame) (x : Logged α) : Logged α :=
  ⟨x.log, x.result.mapError (EvalError.inside frame)⟩

/-- the result of a step that writes no log, its faults named by `f` -/
def ofExcept {ε α : Type} (f : ε → EvalFault) : Except ε α → Logged α
  | .ok a => pure a
  | .error e => fail (f e)

/-- results from left to right, up to the first error -/
def all {α : Type} : List (Logged α) → Logged (List α)
  | [] => pure []
  | x :: xs => do
    let a ← x
    let as ← all xs
    return a :: as

end Logged

/-! ## Sequences -/

/-- an element of a sequence as an item: an operator, or an operand that `a` stands for -/
def Expr.item {α : Type} (e : Expr) (a : α) : Item α :=
  match e with
  | operator op => .operator op
  | _ => .operand a

/-- the expression that an item stands for -/
def Item.expr {α : Type} (f : α → Expr) : Item α → Expr
  | operand a => f a
  | operator op => .operator op

/-- the elements of a sequence in postfix order -/
def postfixElements (es : List Expr) : Except Unmatched (List Expr) :=
  (postfixOrder (es.map fun e => e.item e)).map (·.map (Item.expr id))

/-- an operand on the stack: an expression and what evaluating it comes to -/
structure Operand where
  expr : Expr
  value : Logged Binary64

/-- an operator on two numbers; a parenthesis has no meaning -/
def Operator.apply (op : Operator) (a b : Binary64) : Except EvalFault Binary64 :=
  match op.function? with
  | some f => .ok (f a b)
  | none => .error (.notApplicable op)

/-- runs items in postfix order on a stack, the top of which comes first -/
def runStack : List Operand → List (Item Operand) → Logged Binary64
  | [x], [] => x.value
  | _, [] => .fail .invalidExpression
  | stack, .operand x :: items => runStack (x :: stack) items
  | b :: a :: stack, .operator op :: items => do
    let x ← a.value.inside (.operand a.expr)
    let y ← b.value.inside (.operand b.expr)
    let z ← Logged.ofExcept id (op.apply x y)
    runStack (⟨.number z, pure z⟩ :: stack) items
  | _, .operator op :: _ => .fail (.missingOperand op)

/-- the value of a sequence, from the values of its elements -/
def evalSequence (es : List Expr) (values : List (Logged Binary64)) : Logged Binary64 := do
  let order ← Logged.ofExcept .unmatched (postfixOrder (es.zipWith (fun e value => e.item ⟨e, value⟩) values))
  Logged.record ⟨es, order.map (Item.expr Operand.expr)⟩
  runStack [] order

/-! ## Calls -/

/-- the value of a call, from the values of its arguments -/
def evalCall (env : Environment) (name : String) (values : List (Logged Binary64)) : Logged Binary64 := do
  let callee ← Logged.ofExcept .call (env.callee name)
  if callee.arity.accepts values.length then return callee.value (← Logged.all values)
  else .fail (.wrongArity callee values.length)

/-! ## Expressions -/

namespace Expr

mutual

/-- the value of an expression in an environment -/
def eval (env : Environment) : Expr → Logged Binary64
  | number value => pure value
  | var name => Logged.ofExcept id ((env.lookup? name).elim (.error (.undeclared name)) .ok)
  | call name arguments =>
    (evalCall env name (evalEach env arguments)).inside (.node (.call name arguments))
  | sequence elements => (evalSequence elements (evalEach env elements)).inside (.node (.sequence elements))
  | operator op => .fail (.bareOperator op)

def evalEach (env : Environment) : List Expr → List (Logged Binary64)
  | [] => []
  | e :: es => e.eval env :: evalEach env es

end

end Expr

end Calculator
