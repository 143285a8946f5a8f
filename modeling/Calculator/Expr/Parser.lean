/-
From tokens to expressions.

`callBody` cuts the tokens behind the opening parenthesis of a call into its arguments, at the commas that stand in no
inner parentheses, up to the closing parenthesis. `readElements` reads a flat sequence and, for each call in it, the
arguments in order; an argument that is complete is read even if the call is not, so its errors come first.

Newlines between tokens mean nothing. A name is a call exactly when the next token is an opening parenthesis.

The recursion is on the number of tokens: the arguments of a call hold fewer tokens than the call, `callBody_size`.
-/
import Calculator.Expr
import Calculator.ParseError
import Calculator.Token.Lexer

namespace Calculator

/-! ## The arguments of a call -/

/-- how the tokens behind the opening parenthesis of a call end -/
inductive CallEnding where
  /-- with the closing parenthesis, and these tokens behind it -/
  | closed (rest : List Token)
  /-- with the end of the line, at its token where there is one -/
  | unclosed (span : Option Span)

/-- what stands behind the opening parenthesis of a call: the complete arguments, and the ending -/
structure CallBody where
  arguments : List (List Token)
  ending : CallEnding

namespace CallBody

/-- one more token in front of the first argument, if that one is complete -/
def push (t : Token) : CallBody → CallBody
  | ⟨[], ending⟩ => ⟨[], ending⟩
  | ⟨argument :: arguments, ending⟩ => ⟨(t :: argument) :: arguments, ending⟩

/-- an empty argument in front -/
def next (b : CallBody) : CallBody := ⟨[] :: b.arguments, b.ending⟩

end CallBody

/-- the arguments of a call from a token on that stands `depth` parentheses deep inside it -/
def splitArguments : Nat → List Token → CallBody
  | _, [] => ⟨[], .unclosed none⟩
  | depth, t :: rest =>
    match t.lexeme, depth with
    | .operator .rightParen, 0 => ⟨[[]], .closed rest⟩
    | .operator .rightParen, depth + 1 => (splitArguments depth rest).push t
    | .operator .leftParen, depth => (splitArguments (depth + 1) rest).push t
    | .punctuation .comma, 0 => (splitArguments 0 rest).next
    | .endOfInput, _ => ⟨[], .unclosed t.span⟩
    | _, depth => (splitArguments depth rest).push t

/-- The body of a call: nothing between the parentheses is no argument, and not an empty one. -/
def callBody (ts : List Token) : CallBody :=
  match splitArguments 0 ts with
  | ⟨[[]], .closed rest⟩ => ⟨[], .closed rest⟩
  | body => body

/-- the tokens of some arguments, each with what ends it -/
def argumentsSize : List (List Token) → Nat
  | [] => 0
  | tokens :: others => tokens.length + 1 + argumentsSize others

def CallEnding.size : CallEnding → Nat
  | closed rest => rest.length
  | unclosed _ => 0

def CallBody.size (b : CallBody) : Nat := argumentsSize b.arguments + b.ending.size

theorem CallBody.size_push (t : Token) (b : CallBody) : (b.push t).size ≤ b.size + 1 := by
  obtain ⟨_ | ⟨a, as⟩, e⟩ := b <;> simp [push, size, argumentsSize]
  omega

theorem CallBody.size_next (b : CallBody) : b.next.size = b.size + 1 := by
  simp [next, size, argumentsSize]; omega

theorem splitArguments_size (depth : Nat) (ts : List Token) : (splitArguments depth ts).size ≤ ts.length := by
  induction ts generalizing depth with
  | nil => simp [splitArguments, CallBody.size, argumentsSize, CallEnding.size]
  | cons t rest ih =>
    unfold splitArguments
    split
    · simp [CallBody.size, argumentsSize, CallEnding.size]; omega
    · exact Nat.le_trans (CallBody.size_push ..) (Nat.succ_le_succ (ih _))
    · exact Nat.le_trans (CallBody.size_push ..) (Nat.succ_le_succ (ih _))
    · rw [CallBody.size_next]; exact Nat.succ_le_succ (ih _)
    · simp [CallBody.size, argumentsSize, CallEnding.size]
    · exact Nat.le_trans (CallBody.size_push ..) (Nat.succ_le_succ (ih _))

theorem callBody_size (ts : List Token) : (callBody ts).size ≤ ts.length := by
  unfold callBody
  have := splitArguments_size 0 ts
  split
  · rename_i rest h
    rw [h] at this
    simp [CallBody.size, argumentsSize, CallEnding.size] at this ⊢
    omega
  · exact this

/-! ## Sequences -/

/-- the text of a line from the first to the last of some of its tokens -/
def sourceText (line : Text) : List Token → Text
  | [] => []
  | first :: rest => Span.text ⟨first.span.start, ((rest.getLast?).getD first).span.stop⟩ line

/-- an error inside one more part of the line, or a result -/
def parsing {α : Type} (frame : ParseFrame) : Except ParseError α → Except ParseError α :=
  Except.mapError (ParseError.inside frame)

def refuse {α : Type} (fault : ParseFault) (span : Option Span) : Except ParseError α := .error ⟨fault, span, []⟩

mutual

/-- the elements that tokens of a line stand for, up to the end of input -/
def readElements (line : Text) (ts : List Token) : Except ParseError (List Expr) :=
  match ts with
  | [] => .ok []
  | t :: rest =>
    match t.lexeme with
    | .endOfInput => .ok []
    | .newline => readElements line rest
    | .number value _ => (readElements line rest).map (.number value :: ·)
    | .operator op => (readElements line rest).map (.operator op :: ·)
    | .punctuation mark => refuse (.unexpected mark) t.span
    | .letKeyword => refuse .letDeclaration t.span
    | .invalid text => refuse (.invalid text) t.span
    | .name name =>
      match rest with
      | ⟨.operator .leftParen, _⟩ :: inner =>
        have := callBody_size inner
        match h : callBody inner with
        | ⟨pieces, .closed after⟩ =>
          have : argumentsSize pieces + after.length ≤ inner.length := by
            rw [h] at this; exact this
          do
            let arguments ← parsing (.call name) (readArguments line pieces)
            let others ← readElements line after
            return .call name arguments :: others
        | ⟨pieces, .unclosed span⟩ =>
          have : argumentsSize pieces ≤ inner.length := by
            rw [h] at this; exact this
          parsing (.call name) (readArguments line pieces >>= fun _ => refuse .unterminatedCall span)
      | others => (readElements line others).map (.var name :: ·)
termination_by ts.length
decreasing_by all_goals (simp_all; try omega)

/-- the arguments of a call, each a sequence -/
def readArguments (line : Text) (pieces : List (List Token)) : Except ParseError (List Expr) :=
  match pieces with
  | [] => .ok []
  | piece :: others => do
    let first ← parsing (.source (sourceText line piece)) (readElements line piece)
    return .sequence first :: (← readArguments line others)
termination_by argumentsSize pieces
decreasing_by all_goals (simp [argumentsSize]; try omega)

end

/-- the expression that a list of tokens of a line stands for -/
def Expr.ofTokens (line : Text) (ts : List Token) : Except ParseError Expr := (readElements line ts).map .sequence

/-- the expression that a line stands for -/
def Expr.parse (line : Text) : Except ParseError Expr := parsing (.source line) (Expr.ofTokens line (tokens line))

end Calculator
