/-
How tokens are read, case by case.

A token stands for an element of its own (`Lexeme.element?`), is at fault wherever it is read (`Lexeme.fault?`), is the
name of a call, or has no meaning. There is one equation for `readElements` in each of these cases, and one induction
over the reading of sequences and arguments, whose cases they are.
-/
import Calculator.Expr.Parser
import Calculator.Proofs.Results

namespace Calculator

/-! ## Arguments set aside -/

/-- how many parentheses deep the token behind a lexeme stands -/
def depthStep (depth : Nat) : Lexeme → Nat
  | .operator .leftParen => depth + 1
  | .operator .rightParen => depth - 1
  | _ => depth

theorem depthStep_of_ne {depth : Nat} {l : Lexeme} (hopen : l ≠ .operator .leftParen)
    (hclose : l ≠ .operator .rightParen) : depthStep depth l = depth := by
  unfold depthStep
  split
  · exact absurd rfl hopen
  · exact absurd rfl hclose
  · rfl

/-- a lexeme that belongs to an argument: inside inner parentheses, or neither closing the call nor a comma -/
def Inside (depth : Nat) (l : Lexeme) : Prop :=
  l ≠ .endOfInput ∧ (depth ≠ 0 ∨ l ≠ .operator .rightParen ∧ l ≠ .punctuation .comma)

section

variable {t : Token} {rest : List Token}

theorem splitArguments_end (depth : Nat) (h : t.lexeme = .endOfInput) :
    splitArguments depth (t :: rest) = ⟨[], .unclosed t.span⟩ := by
  unfold splitArguments
  rw [h]

theorem splitArguments_closing (h : t.lexeme = .operator .rightParen) :
    splitArguments 0 (t :: rest) = ⟨[[]], .closed rest⟩ := by
  unfold splitArguments
  rw [h]

theorem splitArguments_comma (h : t.lexeme = .punctuation .comma) :
    splitArguments 0 (t :: rest) = (splitArguments 0 rest).next := by
  conv => lhs; unfold splitArguments
  rw [h]
  rfl

theorem splitArguments_inside {depth : Nat} (h : Inside depth t.lexeme) :
    splitArguments depth (t :: rest) = (splitArguments (depthStep depth t.lexeme) rest).push t := by
  obtain ⟨hend, h⟩ := h
  conv => lhs; unfold splitArguments
  split
  · simp_all
  · rename_i hclose
    rw [hclose]
    rfl
  · rename_i hopen
    rw [hopen, depthStep]
  · simp_all
  · rename_i hstop
    exact absurd hstop hend
  · rename_i depth _ _ hopen _ hclose₀ hclose _
    have hright : t.lexeme ≠ .operator .rightParen := by
      intro hright
      rcases Nat.eq_zero_or_pos depth with hzero | hpos
      · exact hclose₀ hright hzero
      · exact hclose _ hright (Nat.succ_pred_eq_of_pos hpos).symm
    rw [depthStep_of_ne hopen hright]

/-- Induction over the tokens of a call: the end of input, what closes the call, a comma between arguments, and what
belongs to an argument. -/
theorem splitting_induct {P : Nat → List Token → Prop} (nil : ∀ depth, P depth [])
    (stop : ∀ depth t rest, t.lexeme = .endOfInput → P depth (t :: rest))
    (closing : ∀ t rest, t.lexeme = .operator .rightParen → P 0 (t :: rest))
    (comma : ∀ t rest, t.lexeme = .punctuation .comma → P 0 rest → P 0 (t :: rest))
    (inside : ∀ depth t rest, Inside depth t.lexeme → P (depthStep depth t.lexeme) rest → P depth (t :: rest))
    (depth : Nat) (ts : List Token) : P depth ts := by
  induction ts generalizing depth with
  | nil => exact nil depth
  | cons t rest ih =>
    by_cases hend : t.lexeme = .endOfInput
    · exact stop depth t rest hend
    by_cases hinside : depth ≠ 0 ∨ t.lexeme ≠ .operator .rightParen ∧ t.lexeme ≠ .punctuation .comma
    · exact inside depth t rest ⟨hend, hinside⟩ (ih _)
    rw [not_or, Decidable.not_and_iff_not_or_not, Decidable.not_not, Decidable.not_not, Decidable.not_not] at hinside
    obtain ⟨rfl, hclose | hcomma⟩ := hinside
    · exact closing t rest hclose
    · exact comma t rest hcomma (ih 0)

/-- A call that is closed has a first argument, which may be empty. -/
theorem splitArguments_ne (depth : Nat) (ts after : List Token) : splitArguments depth ts ≠ ⟨[], .closed after⟩ := by
  induction depth, ts using splitting_induct with
  | nil depth => simp [splitArguments]
  | stop depth t rest ht => simp [splitArguments_end depth ht]
  | closing t rest ht => simp [splitArguments_closing ht]
  | comma t rest ht _ => simp [splitArguments_comma ht, CallBody.next]
  | inside depth t rest ht ih =>
    rw [splitArguments_inside ht]
    generalize splitArguments (depthStep depth t.lexeme) rest = b at ih
    obtain ⟨_ | ⟨_, _⟩, _⟩ := b
    · exact ih
    · simp [CallBody.push]

/-- The body of a call that is closed: what is set aside, unless that is one empty argument. -/
theorem callBody_eq_closed_iff {ts after : List Token} {pieces : List (List Token)} :
    callBody ts = ⟨pieces, .closed after⟩ ↔
      ∃ arguments, splitArguments 0 ts = ⟨arguments, .closed after⟩ ∧
        pieces = if arguments = [[]] then [] else arguments := by
  unfold callBody
  split
  · rename_i rest hsplit
    rw [hsplit]
    constructor
    · intro h
      cases h
      exact ⟨[[]], rfl, rfl⟩
    · intro h
      obtain ⟨arguments, h, rfl⟩ := h
      cases h
      rfl
  · rename_i hne
    constructor
    · intro h
      refine ⟨pieces, h, (if_neg fun hempty => ?_).symm⟩
      subst hempty
      exact hne after h
    · intro h
      obtain ⟨arguments, h, rfl⟩ := h
      rw [if_neg, h]
      intro hempty
      subst hempty
      exact hne after h

end

/-! ## Elements -/

/-- the element that a token is read as, unless it is the name of a call -/
def Lexeme.element? : Lexeme → Option Expr
  | number value _ => some (.number value)
  | operator op => some (.operator op)
  | name n => some (.var n)
  | _ => none

/-- what is wrong with a token that is read -/
def Lexeme.fault? : Lexeme → Option ParseFault
  | punctuation mark => some (.unexpected mark)
  | letKeyword => some .letDeclaration
  | invalid text => some (.invalid text)
  | _ => none

theorem Lexeme.ne_endOfInput_of_element? {l : Lexeme} {e : Expr} (h : l.element? = some e) : l ≠ .endOfInput := by
  rintro rfl; cases h

theorem Lexeme.ne_endOfInput_of_fault? {l : Lexeme} {f : ParseFault} (h : l.fault? = some f) : l ≠ .endOfInput := by
  rintro rfl; cases h

/-- a name right before an opening parenthesis -/
def StartsCall (t : Token) (rest : List Token) : Prop :=
  ∃ name p inner, t.lexeme = .name name ∧ rest = p :: inner ∧ p.lexeme = .operator .leftParen

section

variable {line : Text} {t p : Token} {rest inner after : List Token} {pieces : List (List Token)} {name : String}

theorem readElements_nil : readElements line [] = .ok [] := by rw [readElements]

theorem readElements_end (h : t.lexeme = .endOfInput) : readElements line (t :: rest) = .ok [] := by
  rw [readElements, h]

theorem readElements_newline (h : t.lexeme = .newline) : readElements line (t :: rest) = readElements line rest := by
  rw [readElements, h]

theorem readElements_element {e : Expr} (h : t.lexeme.element? = some e) (hcall : ¬ StartsCall t rest) :
    readElements line (t :: rest) = (readElements line rest).map (e :: ·) := by
  rw [readElements]
  cases hl : t.lexeme with
  | number value radix => rw [hl] at h; cases h; rfl
  | operator op => rw [hl] at h; cases h; rfl
  | name n =>
    rw [hl] at h; cases h
    simp only
    split
    · rename_i span inner
      exact absurd ⟨n, _, inner, hl, rfl, rfl⟩ hcall
    · rfl
  | _ => rw [hl] at h; cases h

theorem readElements_fault {fault : ParseFault} (h : t.lexeme.fault? = some fault) :
    readElements line (t :: rest) = refuse fault t.span := by
  rw [readElements]
  cases hl : t.lexeme with
  | punctuation mark => rw [hl] at h; cases h; rfl
  | letKeyword => rw [hl] at h; cases h; rfl
  | invalid text => rw [hl] at h; cases h; rfl
  | _ => rw [hl] at h; cases h

theorem readElements_closed (ht : t.lexeme = .name name) (hp : p.lexeme = .operator .leftParen)
    (hbody : callBody inner = ⟨pieces, .closed after⟩) :
    readElements line (t :: p :: inner) = (do
      let arguments ← parsing (.call name) (readArguments line pieces)
      let others ← readElements line after
      return .call name arguments :: others) := by
  obtain ⟨_, span⟩ := p
  cases hp
  rw [readElements, ht]
  simp only
  split
  · rename_i hbody'; rw [hbody] at hbody'; cases hbody'; rfl
  · rename_i hbody'; rw [hbody] at hbody'; cases hbody'

theorem readElements_unclosed {span : Option Span} (ht : t.lexeme = .name name)
    (hp : p.lexeme = .operator .leftParen) (hbody : callBody inner = ⟨pieces, .unclosed span⟩) :
    readElements line (t :: p :: inner) =
      parsing (.call name) (readArguments line pieces >>= fun _ => refuse .unterminatedCall span) := by
  obtain ⟨_, _⟩ := p
  cases hp
  rw [readElements, ht]
  simp only
  split
  · rename_i hbody'; rw [hbody] at hbody'; cases hbody'
  · rename_i hbody'; rw [hbody] at hbody'; cases hbody'; rfl

theorem readArguments_nil : readArguments line [] = .ok [] := by rw [readArguments]

theorem readArguments_cons (piece : List Token) (others : List (List Token)) :
    readArguments line (piece :: others) = (do
      let first ← parsing (.source (sourceText line piece)) (readElements line piece)
      return .sequence first :: (← readArguments line others)) := by
  rw [readArguments]

/-! ## Reading without error -/

@[simp] theorem parsing_ok {α : Type} {frame : ParseFrame} {a : α} : parsing frame (.ok a) = .ok a := rfl

@[simp] theorem parsing_error {α : Type} {frame : ParseFrame} {e : ParseError} :
    parsing frame (.error e : Except ParseError α) = .error (.inside frame e) := rfl

theorem parsing_eq_ok_iff {α : Type} {frame : ParseFrame} {x : Except ParseError α} {a : α} :
    parsing frame x = .ok a ↔ x = .ok a := by
  cases x with
  | ok a => rw [parsing_ok]
  | error e => simp

theorem readElements_closed_eq_ok_iff (ht : t.lexeme = .name name) (hp : p.lexeme = .operator .leftParen)
    (hbody : callBody inner = ⟨pieces, .closed after⟩) {es : List Expr} :
    readElements line (t :: p :: inner) = .ok es ↔
      ∃ arguments others, readArguments line pieces = .ok arguments ∧ readElements line after = .ok others ∧
        es = .call name arguments :: others := by
  rw [readElements_closed ht hp hbody]
  cases hpieces : readArguments line pieces with
  | error e => simp [bind, Except.bind]
  | ok arguments =>
    cases hafter : readElements line after with
    | error e => simp [bind, Except.bind]
    | ok others => simp [bind, Except.bind, pure, Except.pure, eq_comm]

theorem readElements_unclosed_ne_ok {span : Option Span} (ht : t.lexeme = .name name)
    (hp : p.lexeme = .operator .leftParen) (hbody : callBody inner = ⟨pieces, .unclosed span⟩) (es : List Expr) :
    readElements line (t :: p :: inner) ≠ .ok es := by
  rw [readElements_unclosed ht hp hbody, Ne, parsing_eq_ok_iff]
  cases readArguments line pieces with
  | error e => simp [bind, Except.bind]
  | ok arguments => simp [bind, Except.bind, refuse]

theorem readArguments_cons_eq_ok_iff {piece : List Token} {others : List (List Token)} {arguments : List Expr} :
    readArguments line (piece :: others) = .ok arguments ↔
      ∃ first rest, readElements line piece = .ok first ∧ readArguments line others = .ok rest ∧
        arguments = .sequence first :: rest := by
  rw [readArguments_cons]
  cases hpiece : readElements line piece with
  | error e => simp [bind, Except.bind]
  | ok first =>
    cases hothers : readArguments line others with
    | error e => simp [bind, Except.bind]
    | ok rest => simp [bind, Except.bind, pure, Except.pure, eq_comm]

/-! ## Reading with an error -/

theorem parsing_eq_error_iff {α : Type} {frame : ParseFrame} {x : Except ParseError α} {e : ParseError} :
    parsing frame x = .error e ↔ ∃ e', x = .error e' ∧ e'.inside frame = e := mapError_eq_error_iff

theorem readElements_closed_eq_error_iff (ht : t.lexeme = .name name) (hp : p.lexeme = .operator .leftParen)
    (hbody : callBody inner = ⟨pieces, .closed after⟩) {e : ParseError} :
    readElements line (t :: p :: inner) = .error e ↔
      (∃ e', readArguments line pieces = .error e' ∧ e'.inside (.call name) = e) ∨
        ∃ arguments, readArguments line pieces = .ok arguments ∧ readElements line after = .error e := by
  rw [readElements_closed ht hp hbody]
  simp only [bind_eq_error_iff, parsing_eq_error_iff, parsing_eq_ok_iff, pure, Except.pure, reduceCtorEq, and_false,
    exists_false, or_false]

theorem readElements_unclosed_eq_error_iff {span : Option Span} (ht : t.lexeme = .name name)
    (hp : p.lexeme = .operator .leftParen) (hbody : callBody inner = ⟨pieces, .unclosed span⟩) {e : ParseError} :
    readElements line (t :: p :: inner) = .error e ↔
      (∃ e', readArguments line pieces = .error e' ∧ e'.inside (.call name) = e) ∨
        (∃ arguments, readArguments line pieces = .ok arguments) ∧ e = ⟨.unterminatedCall, span, [.call name]⟩ := by
  rw [readElements_unclosed ht hp hbody, parsing_eq_error_iff]
  simp only [bind_eq_error_iff, refuse, Except.error.injEq]
  constructor
  · intro h
    obtain ⟨e', hread | ⟨arguments, hread, rfl⟩, rfl⟩ := h
    · exact .inl ⟨e', hread, rfl⟩
    · exact .inr ⟨⟨arguments, hread⟩, rfl⟩
  · intro h
    rcases h with ⟨e', hread, rfl⟩ | ⟨⟨arguments, hread⟩, rfl⟩
    · exact ⟨e', .inl hread, rfl⟩
    · exact ⟨_, .inr ⟨arguments, hread, rfl⟩, rfl⟩

theorem readArguments_cons_eq_error_iff {piece : List Token} {others : List (List Token)} {e : ParseError} :
    readArguments line (piece :: others) = .error e ↔
      (∃ e', readElements line piece = .error e' ∧ e'.inside (.source (sourceText line piece)) = e) ∨
        ∃ first, readElements line piece = .ok first ∧ readArguments line others = .error e := by
  rw [readArguments_cons]
  simp only [bind_eq_error_iff, parsing_eq_error_iff, parsing_eq_ok_iff, pure, Except.pure, reduceCtorEq, and_false,
    exists_false, or_false]

end

/-- **Induction over the reading.** A property of sequences of tokens and one of lists of arguments, which hold when
they hold of everything that is read inside. -/
theorem reading_induct {P : List Token → Prop} {Q : List (List Token) → Prop} (nil : P [])
    (stop : ∀ t rest, t.lexeme = .endOfInput → P (t :: rest))
    (newline : ∀ t rest, t.lexeme = .newline → P rest → P (t :: rest))
    (element : ∀ t rest e, t.lexeme.element? = some e → ¬ StartsCall t rest → P rest → P (t :: rest))
    (fault : ∀ t rest f, t.lexeme.fault? = some f → P (t :: rest))
    (closed : ∀ t p inner name pieces after, t.lexeme = .name name → p.lexeme = .operator .leftParen →
      callBody inner = ⟨pieces, .closed after⟩ → Q pieces → P after → P (t :: p :: inner))
    (unclosed : ∀ t p inner name pieces span, t.lexeme = .name name → p.lexeme = .operator .leftParen →
      callBody inner = ⟨pieces, .unclosed span⟩ → Q pieces → P (t :: p :: inner))
    (none : Q []) (argument : ∀ piece others, P piece → Q others → Q (piece :: others)) :
    (∀ ts, P ts) ∧ ∀ pieces, Q pieces := by
  have hnumber : ∀ t rest value radix, t.lexeme = .number value radix → P rest → P (t :: rest) := by
    intro t rest value radix h
    refine element t rest (.number value) (by rw [h]; rfl) ?_
    intro hcall
    obtain ⟨name, p, inner, h', -⟩ := hcall
    rw [h] at h'
    cases h'
  have hoperator : ∀ t rest op, t.lexeme = .operator op → P rest → P (t :: rest) := by
    intro t rest op h
    refine element t rest (.operator op) (by rw [h]; rfl) ?_
    intro hcall
    obtain ⟨name, p, inner, h', -⟩ := hcall
    rw [h] at h'
    cases h'
  refine readElements.mutual_induct P Q nil stop newline hnumber hoperator ?_ ?_ ?_ ?_ ?_ ?_ none argument
  · exact fun t rest mark h => fault t rest (.unexpected mark) (by rw [h]; rfl)
  · exact fun t rest h => fault t rest .letDeclaration (by rw [h]; rfl)
  · exact fun t rest text h => fault t rest (.invalid text) (by rw [h]; rfl)
  · exact fun t name ht span inner _ pieces after hbody _ => closed t _ inner name pieces after ht rfl hbody
  · exact fun t name ht span inner _ pieces _ hbody _ => unclosed t _ inner name pieces _ ht rfl hbody
  · intro t name ht others hopen
    refine element t others (.var name) (by rw [ht]; rfl) ?_
    intro hcall
    obtain ⟨name, ⟨_, span⟩, inner, -, hrest, rfl⟩ := hcall
    exact hopen span inner hrest

end Calculator
