/-
Newlines between the tokens of a line.

A newline means nothing where it is read, but it stands between its neighbours, and there are three places where those
mean something only side by side: a name and the parenthesis that makes a call of it, an operand and the minus behind
it, and the parentheses of a call without arguments. Where no newlines stand in these places, a line means the same
with spaces for its newlines.

- `accepts_unbroken`: whether a line is an expression depends on the first of these places alone;
- `unbroken_eq_withoutNewlines`: if there are none of the second, newlines are all that changes;
- `readElements_withoutNewlines`: if there are none of the others, tokens are read alike without newlines;
- `parse_spaced`: a line with spaces for its newlines;
- `parse_spaced_brokenLines`: newlines in the first two places are not like spaces.
-/
import Calculator.Proofs.Expr.Arguments
import Calculator.Proofs.Expr.Lexemes
import Calculator.Proofs.Token.Newlines

namespace Calculator

/-! ## Behind newlines -/

def withoutNewlines (ts : List Token) : List Token := ts.filter (·.lexeme ≠ .newline)

/-- the first lexeme that is no newline -/
def nextLexeme : List Token → Option Lexeme
  | [] => none
  | t :: rest => if t.lexeme = .newline then nextLexeme rest else some t.lexeme

/-- the first lexeme that is no newline, if newlines stand in front of it -/
def behindNewlines : List Token → Option Lexeme
  | [] => none
  | t :: rest => if t.lexeme = .newline then nextLexeme rest else none

/-- a property that each token has together with the tokens behind it -/
def Throughout (R : Token → List Token → Prop) : List Token → Prop
  | [] => True
  | t :: rest => R t rest ∧ Throughout R rest

instance Throughout.decidable (R : Token → List Token → Prop) [∀ t rest, Decidable (R t rest)] :
    (ts : List Token) → Decidable (Throughout R ts)
  | [] => isTrue trivial
  | t :: rest =>
    have := Throughout.decidable R rest
    inferInstanceAs (Decidable (R t rest ∧ Throughout R rest))

/-- No newlines stand between a name and an opening parenthesis. -/
def CallsJoined : List Token → Prop :=
  Throughout fun t rest => t.lexeme.isName → behindNewlines rest ≠ some (.operator .leftParen)

/-- No newlines stand between the end of an operand and a number with a sign. -/
def SignsJoined : List Token → Prop :=
  Throughout fun t rest => t.lexeme.endsOperand → ∀ l ∈ behindNewlines rest, l.isSigned = false

/-- Newlines are never all that stands between the parentheses of a call. -/
def ParensJoined : List Token → Prop :=
  Throughout fun t rest => t.lexeme.isName → rest.head?.map (·.lexeme) = some (.operator .leftParen) →
    behindNewlines rest.tail ≠ some (.operator .rightParen)

instance : DecidablePred CallsJoined := fun ts => inferInstanceAs (Decidable (Throughout _ ts))

instance : DecidablePred SignsJoined := fun ts => inferInstanceAs (Decidable (Throughout _ ts))

instance : DecidablePred ParensJoined := fun ts => inferInstanceAs (Decidable (Throughout _ ts))

section

variable {R : Token → List Token → Prop} {t : Token} {rest us vs ts : List Token} {l : Lexeme}

theorem withoutNewlines_newline (h : t.lexeme = .newline) : withoutNewlines (t :: rest) = withoutNewlines rest :=
  List.filter_cons_of_neg (by simp [h])

theorem withoutNewlines_cons (h : t.lexeme ≠ .newline) : withoutNewlines (t :: rest) = t :: withoutNewlines rest :=
  List.filter_cons_of_pos (by simp [h])

theorem nextLexeme_newline (h : t.lexeme = .newline) : nextLexeme (t :: rest) = nextLexeme rest := if_pos h

theorem nextLexeme_cons (h : t.lexeme ≠ .newline) : nextLexeme (t :: rest) = some t.lexeme := if_neg h

theorem behindNewlines_newline (h : t.lexeme = .newline) : behindNewlines (t :: rest) = nextLexeme rest := if_pos h

theorem nextLexeme_of_behindNewlines (h : behindNewlines ts = some l) : nextLexeme ts = some l := by
  cases ts with
  | nil => cases h
  | cons t rest =>
    rw [behindNewlines] at h
    split at h
    · rename_i ht
      rwa [nextLexeme_newline ht]
    · cases h

/-- What comes next stands behind newlines or comes first. -/
theorem behindNewlines_or_first (h : nextLexeme ts = some l) :
    behindNewlines ts = some l ∨ ∃ t rest, ts = t :: rest ∧ t.lexeme = l := by
  cases ts with
  | nil => cases h
  | cons t rest =>
    by_cases ht : t.lexeme = .newline
    · rw [nextLexeme_newline ht] at h
      exact .inl (by rw [behindNewlines_newline ht, h])
    · rw [nextLexeme_cons ht] at h
      exact .inr ⟨t, rest, rfl, Option.some.inj h⟩

theorem nextLexeme_of_withoutNewlines (h : withoutNewlines ts = t :: rest) : nextLexeme ts = some t.lexeme := by
  induction ts with
  | nil => cases h
  | cons u us ih =>
    by_cases hu : u.lexeme = .newline
    · rw [withoutNewlines_newline hu] at h
      rw [nextLexeme_newline hu, ih h]
    · rw [withoutNewlines_cons hu] at h
      rw [nextLexeme_cons hu, (List.cons.inj h).1]

theorem nextLexeme_append (h : nextLexeme us = some l) : nextLexeme (us ++ vs) = some l := by
  induction us with
  | nil => cases h
  | cons u us ih =>
    by_cases hu : u.lexeme = .newline
    · rw [nextLexeme_newline hu] at h
      rw [List.cons_append, nextLexeme_newline hu, ih h]
    · rw [nextLexeme_cons hu] at h
      rw [List.cons_append, nextLexeme_cons hu, h]

theorem behindNewlines_append (h : behindNewlines us = some l) : behindNewlines (us ++ vs) = some l := by
  cases us with
  | nil => cases h
  | cons u us =>
    rw [behindNewlines] at h
    split at h
    · rename_i hu
      rw [List.cons_append, behindNewlines_newline hu, nextLexeme_append h]
    · cases h

theorem Throughout.right (h : Throughout R (us ++ vs)) : Throughout R vs := by
  induction us with
  | nil => exact h
  | cons u us ih => exact ih h.2

theorem Throughout.left (hR : ∀ t us vs, R t (us ++ vs) → R t us) (h : Throughout R (us ++ vs)) : Throughout R us := by
  induction us with
  | nil => trivial
  | cons u us ih => exact ⟨hR u us vs h.1, ih h.2⟩

theorem CallsJoined.inside (h : CallsJoined ts) (hus : us <:+: ts) : CallsJoined us := by
  obtain ⟨front, back, rfl⟩ := hus
  rw [List.append_assoc] at h
  exact h.right.left fun t us vs ht hname hl => ht hname (behindNewlines_append hl)

theorem ParensJoined.inside (h : ParensJoined ts) (hus : us <:+: ts) : ParensJoined us := by
  obtain ⟨front, back, rfl⟩ := hus
  rw [List.append_assoc] at h
  refine h.right.left fun t us vs ht hname hparen hl => ?_
  cases us with
  | nil => cases hparen
  | cons p us => exact ht hname hparen (behindNewlines_append hl)

theorem ParensJoined.behind {p : Token} {name : String} (h : ParensJoined (t :: p :: rest)) (ht : t.lexeme = .name name)
    (hp : p.lexeme = .operator .leftParen) : behindNewlines rest ≠ some (.operator .rightParen) :=
  h.1 (by simp [ht, Lexeme.isName]) (by simp [hp])

end

/-! ## What stands before -/

/-- What stands before some tokens, seen with the newlines before them (`before`) and without (`before'`), makes a
difference only to a lexeme with a property, and that does not come next. -/
structure Kept (Q : Lexeme → Prop) (before before' : Bool) (ts : List Token) : Prop where
  next : before ≠ before' → ∀ l ∈ nextLexeme ts, ¬ Q l
  behind : before' = true → ∀ l ∈ behindNewlines ts, ¬ Q l

section

variable {Q : Lexeme → Prop} {before before' : Bool} {t : Token} {rest : List Token}

theorem Kept.of_newline (ht : t.lexeme = .newline) (h : Kept Q before before' (t :: rest)) :
    Kept Q false before' rest := by
  have hnext : before' = true → ∀ l ∈ nextLexeme rest, ¬ Q l := by
    intro hbefore l hl
    exact h.behind hbefore l (by rwa [behindNewlines_newline ht])
  refine ⟨fun hne => hnext ?_, fun hbefore l hl => hnext hbefore l (nextLexeme_of_behindNewlines hl)⟩
  cases before' with
  | false => exact absurd rfl hne
  | true => rfl

theorem Kept.of_token (h : before = true → ∀ l ∈ behindNewlines rest, ¬ Q l) : Kept Q before before rest :=
  ⟨fun hne => absurd rfl hne, h⟩

theorem Kept.eq_or_not (ht : t.lexeme ≠ .newline) (h : Kept Q before before' (t :: rest)) :
    before = before' ∨ ¬ Q t.lexeme := by
  by_cases hsame : before = before'
  · exact .inl hsame
  · exact .inr (h.next hsame t.lexeme (nextLexeme_cons ht))

end

/-! ## Acceptance -/

section

variable {opened : List Bool} {t : Token} {rest ts : List Token}

/-- What is no part of a call is accepted anywhere, and nothing is open behind it that was not open before. -/
theorem accepts_plain {afterName : Bool} (ht : t.lexeme = .newline ∨ t.lexeme = .operator .subtract ∨
    ∃ value radix, t.lexeme = .number value radix) :
    Accepts opened afterName (t :: rest) ↔ Accepts opened false rest := by
  rcases ht with ht | ht | ⟨value, radix, ht⟩ <;>
    simp [accepts_cons, ht, Admits, Lexeme.isForeign, openStep, Lexeme.isName]

/-- **Acceptance without newlines.** What becomes of tokens without newlines is accepted exactly if they are. -/
theorem accepts_unbroken (h : CallsJoined ts) {afterName afterName' : Bool}
    (hkept : Kept (· = .operator .leftParen) afterName afterName' ts) (afterOperand : Bool) :
    Accepts opened afterName' (Lexer.unbroken afterOperand ts) ↔ Accepts opened afterName ts := by
  induction ts generalizing opened afterName afterName' afterOperand with
  | nil => rfl
  | cons t rest ih =>
    obtain ⟨hcall, hrest⟩ := h
    by_cases hnewline : t.lexeme = .newline
    · rw [Lexer.unbroken_newline hnewline, accepts_plain (.inl hnewline), ih hrest (hkept.of_newline hnewline)]
    have hnext : Kept (· = .operator .leftParen) t.lexeme.isName t.lexeme.isName rest := by
      refine .of_token fun hname l hl => ?_
      rintro rfl
      exact hcall hname hl
    by_cases hsign : afterOperand = true ∧ t.lexeme.isSigned = true
    · obtain ⟨rfl, hsigned⟩ := hsign
      obtain ⟨value, radix, hl, hnegative⟩ := Lexeme.isSigned_iff.1 hsigned
      rw [hl] at hnext
      -- The subtraction and its number open and close nothing, just like the number with the sign.
      rw [Lexer.unbroken_sign hl hnegative, accepts_plain (.inr (.inl rfl)), accepts_plain (.inr (.inr ⟨_, _, rfl⟩)),
        accepts_plain (.inr (.inr ⟨_, _, hl⟩))]
      exact ih hrest hnext true
    · have hbefore : ∀ others, Accepts opened afterName' (t :: others) ↔ Accepts opened afterName (t :: others) := by
        intro others
        rcases hkept.eq_or_not hnewline with rfl | hopen
        · rfl
        · have hhead : ∀ u ∈ (t :: others).head?, u.lexeme ≠ .operator .leftParen := by simpa using hopen
          exact (accepts_afterName hhead).trans (accepts_afterName hhead).symm
      rw [Lexer.unbroken_token hnewline fun hafter => Bool.not_eq_true _ ▸ not_and.1 hsign hafter, hbefore]
      by_cases hend : t.lexeme = .endOfInput
      · rw [accepts_end hend, accepts_end hend]
      · rw [accepts_cons hend, accepts_cons hend, ih hrest hnext]

end

/-! ## Signs -/

/-- Where no newlines stand in front of signs, what becomes of tokens without newlines is the other tokens. -/
theorem unbroken_eq_withoutNewlines {ts : List Token} (h : SignsJoined ts) {afterOperand afterOperand' : Bool}
    (hsigns : Lexer.SignsFit afterOperand (ts.map (·.lexeme)))
    (hkept : Kept (·.isSigned = true) afterOperand afterOperand' ts) :
    Lexer.unbroken afterOperand' ts = withoutNewlines ts := by
  induction ts generalizing afterOperand afterOperand' with
  | nil => rfl
  | cons t rest ih =>
    obtain ⟨hsign, hrest⟩ := h
    obtain ⟨hfits, hsigns⟩ := hsigns
    change Lexer.SignsFit t.lexeme.endsOperand _ at hsigns
    by_cases hnewline : t.lexeme = .newline
    · rw [hnewline] at hsigns
      rw [Lexer.unbroken_newline hnewline, withoutNewlines_newline hnewline,
        ih hrest hsigns (hkept.of_newline hnewline)]
    have hnext : Kept (·.isSigned = true) t.lexeme.endsOperand t.lexeme.endsOperand rest :=
      .of_token fun hends l hl => by simp [hsign hends l hl]
    rw [Lexer.unbroken_token hnewline, withoutNewlines_cons hnewline, ih hrest hsigns hnext]
    intro hafter
    rcases hkept.eq_or_not hnewline with rfl | hunsigned
    · exact Lexeme.isSigned_eq_false_iff.2 (hfits hafter)
    · exact Bool.not_eq_true _ ▸ hunsigned

/-! ## Calls -/

def CallEnding.withoutNewlines : CallEnding → CallEnding
  | closed rest => closed (Calculator.withoutNewlines rest)
  | unclosed span => unclosed span

def CallBody.withoutNewlines (b : CallBody) : CallBody :=
  ⟨b.arguments.map Calculator.withoutNewlines, b.ending.withoutNewlines⟩

section

variable {t : Token} {ts rest : List Token}

theorem CallBody.withoutNewlines_push_newline (ht : t.lexeme = .newline) (b : CallBody) :
    (b.push t).withoutNewlines = b.withoutNewlines := by
  obtain ⟨_ | ⟨first, others⟩, ending⟩ := b
  · rfl
  · simp [push, withoutNewlines, withoutNewlines_newline ht]

theorem CallBody.withoutNewlines_push (ht : t.lexeme ≠ .newline) (b : CallBody) :
    (b.push t).withoutNewlines = b.withoutNewlines.push t := by
  obtain ⟨_ | ⟨first, others⟩, ending⟩ := b
  · rfl
  · simp [push, withoutNewlines, withoutNewlines_cons ht]

/-- Newlines can be left out before a call is cut into arguments, or behind. -/
theorem splitArguments_withoutNewlines (depth : Nat) (ts : List Token) :
    splitArguments depth (withoutNewlines ts) = (splitArguments depth ts).withoutNewlines := by
  induction depth, ts using splitting_induct with
  | nil depth => rfl
  | stop depth t rest ht =>
    rw [withoutNewlines_cons (by simp [ht]), splitArguments_end depth ht, splitArguments_end depth ht]
    rfl
  | closing t rest ht =>
    rw [withoutNewlines_cons (by simp [ht]), splitArguments_closing ht, splitArguments_closing ht]
    rfl
  | comma t rest ht ih =>
    rw [withoutNewlines_cons (by simp [ht]), splitArguments_comma ht, splitArguments_comma ht, ih]
    rfl
  | inside depth t rest ht ih =>
    rw [splitArguments_inside ht]
    by_cases hnewline : t.lexeme = .newline
    · rw [hnewline] at ih
      rw [withoutNewlines_newline hnewline, CallBody.withoutNewlines_push_newline hnewline, hnewline]
      exact ih
    · rw [withoutNewlines_cons hnewline, CallBody.withoutNewlines_push hnewline, splitArguments_inside ht, ih]

/-- Behind newlines alone, a call with one argument is closed. -/
theorem nextLexeme_of_splitArguments {argument after : List Token}
    (h : splitArguments 0 ts = ⟨[argument], .closed after⟩) (hargument : withoutNewlines argument = []) :
    nextLexeme ts = some (.operator .rightParen) := by
  generalize hdepth : 0 = depth at h
  induction depth, ts using splitting_induct generalizing argument with
  | nil depth => rw [splitArguments] at h; cases h
  | stop depth t rest ht => rw [splitArguments_end depth ht] at h; cases h
  | closing t rest ht => rw [nextLexeme_cons (by simp [ht]), ht]
  | comma t rest ht _ =>
    rw [splitArguments_comma ht] at h
    obtain ⟨first, others, -, hpieces⟩ := CallBody.eq_of_next_eq_closed (splitArguments_ne 0 rest after) h
    cases hpieces
  | inside depth t rest ht ih =>
    subst hdepth
    rw [splitArguments_inside ht] at h
    obtain ⟨first, others, hrest, hpieces⟩ := CallBody.eq_of_push_eq_closed (splitArguments_ne _ rest after) h
    cases hpieces
    by_cases hnewline : t.lexeme = .newline
    · rw [withoutNewlines_newline hnewline] at hargument
      rw [nextLexeme_newline hnewline]
      exact ih hargument (by rw [hnewline]; rfl) hrest
    · rw [withoutNewlines_cons hnewline] at hargument
      cases hargument

theorem callBody_eq_splitArguments (h : ∀ after, splitArguments 0 ts ≠ ⟨[[]], .closed after⟩) :
    callBody ts = splitArguments 0 ts := by
  unfold callBody
  split
  · rename_i hsplit
    exact absurd hsplit (h _)
  · rfl

/-- Newlines can be left out of a call, if they are not all that it holds. -/
theorem callBody_withoutNewlines (h : behindNewlines ts ≠ some (.operator .rightParen)) :
    callBody (withoutNewlines ts) = (callBody ts).withoutNewlines := by
  by_cases hempty : ∃ argument after, splitArguments 0 ts = ⟨[argument], .closed after⟩ ∧ withoutNewlines argument = []
  · obtain ⟨argument, after, hsplit, hargument⟩ := hempty
    rcases behindNewlines_or_first (nextLexeme_of_splitArguments hsplit hargument) with hbehind | ⟨t, rest, rfl, ht⟩
    · exact absurd hbehind h
    · -- Closed at once, the call holds nothing, and no newlines either.
      rw [withoutNewlines_cons (by simp [ht]), callBody, callBody, splitArguments_closing ht, splitArguments_closing ht]
      rfl
  · rw [callBody_eq_splitArguments, callBody_eq_splitArguments, splitArguments_withoutNewlines]
    · exact fun after hsplit => hempty ⟨[], after, hsplit, rfl⟩
    · intro after hsplit
      rw [splitArguments_withoutNewlines] at hsplit
      obtain ⟨harguments, hending⟩ := CallBody.mk.inj hsplit
      obtain ⟨argument, hone, hargument⟩ := List.map_eq_singleton_iff.1 harguments
      cases hclosed : (splitArguments 0 ts).ending with
      | closed behind => exact hempty ⟨argument, behind, by rw [← hone, ← hclosed], hargument⟩
      | unclosed span => rw [hclosed] at hending; cases hending

/-- A name that begins no call does not begin one without newlines either. -/
theorem not_startsCall_withoutNewlines (hcalls : CallsJoined (t :: rest)) (h : ¬ StartsCall t rest) :
    ¬ StartsCall t (withoutNewlines rest) := by
  intro hstarts
  obtain ⟨name, p, inner, hname, hrest, hp⟩ := hstarts
  have hnext : nextLexeme rest = some (.operator .leftParen) := by rw [nextLexeme_of_withoutNewlines hrest, hp]
  rcases behindNewlines_or_first hnext with hbehind | ⟨q, others, rfl, hq⟩
  · exact hcalls.1 (by simp [hname, Lexeme.isName]) hbehind
  · exact h ⟨name, q, others, hname, rfl, hq⟩

end

/-! ## Reading -/

theorem Lexeme.ne_newline_of_element? {l : Lexeme} {e : Expr} (h : l.element? = some e) : l ≠ .newline := by
  rintro rfl; cases h

theorem Lexeme.ne_newline_of_fault? {l : Lexeme} {f : ParseFault} (h : l.fault? = some f) : l ≠ .newline := by
  rintro rfl; cases h

/-- **Reading without newlines.** With newlines and without them the same elements are read, and the same arguments. -/
theorem readElements_withoutNewlines (line line' : Text) :
    (∀ ts, CallsJoined ts → ParensJoined ts → ∀ es,
        readElements line' (withoutNewlines ts) = .ok es ↔ readElements line ts = .ok es) ∧
      ∀ pieces, (∀ piece ∈ pieces, CallsJoined piece ∧ ParensJoined piece) → ∀ arguments,
        readArguments line' (pieces.map withoutNewlines) = .ok arguments ↔
          readArguments line pieces = .ok arguments := by
  refine reading_induct ?nil ?stop ?newline ?element ?fault ?closed ?unclosed ?none ?argument
  case nil =>
    intro _ _ es
    rw [withoutNewlines, List.filter_nil, readElements_nil, readElements_nil]
  case stop =>
    intro t rest ht _ _ es
    rw [withoutNewlines_cons (by simp [ht]), readElements_end ht, readElements_end ht]
  case newline =>
    intro t rest ht ih hcalls hparens es
    rw [withoutNewlines_newline ht, readElements_newline ht]
    exact ih hcalls.2 hparens.2 es
  case element =>
    intro t rest e ht hcall ih hcalls hparens es
    rw [withoutNewlines_cons (Lexeme.ne_newline_of_element? ht),
      readElements_element ht (not_startsCall_withoutNewlines hcalls hcall), readElements_element ht hcall]
    simp only [map_eq_ok_iff, ih hcalls.2 hparens.2]
  case fault =>
    intro t rest f ht _ _ es
    rw [withoutNewlines_cons (Lexeme.ne_newline_of_fault? ht), readElements_fault ht, readElements_fault ht]
  case closed =>
    intro t p inner name pieces after ht hp hbody ihPieces ihAfter hcalls hparens es
    have hbody' : callBody (withoutNewlines inner) = ⟨pieces.map withoutNewlines, .closed (withoutNewlines after)⟩ := by
      rw [callBody_withoutNewlines (hparens.behind ht hp), hbody]
      rfl
    have hinner : inner <:+: t :: p :: inner := ⟨[t, p], [], by simp⟩
    have hafter : after <:+: t :: p :: inner :=
      (suffix_of_closed (ending_of_callBody hbody)).isInfix.trans hinner
    have hpieces : ∀ piece ∈ pieces, piece <:+: t :: p :: inner :=
      fun piece hpiece => (isInfix_of_callBody hbody hpiece).trans hinner
    rw [withoutNewlines_cons (by simp [ht]), withoutNewlines_cons (by simp [hp]),
      readElements_closed_eq_ok_iff ht hp hbody', readElements_closed_eq_ok_iff ht hp hbody]
    simp only [ihAfter (hcalls.inside hafter) (hparens.inside hafter),
      ihPieces fun piece hpiece => ⟨hcalls.inside (hpieces piece hpiece), hparens.inside (hpieces piece hpiece)⟩]
  case unclosed =>
    intro t p inner name pieces span ht hp hbody _ _ hparens es
    have hbody' : callBody (withoutNewlines inner) = ⟨pieces.map withoutNewlines, .unclosed span⟩ := by
      rw [callBody_withoutNewlines (hparens.behind ht hp), hbody]
      rfl
    rw [withoutNewlines_cons (by simp [ht]), withoutNewlines_cons (by simp [hp])]
    exact iff_of_false (readElements_unclosed_ne_ok ht hp hbody' es) (readElements_unclosed_ne_ok ht hp hbody es)
  case none =>
    intro _ arguments
    rw [List.map_nil, readArguments_nil, readArguments_nil]
  case argument =>
    intro piece others ihPiece ihOthers h arguments
    obtain ⟨hpiece, hothers⟩ := List.forall_mem_cons.1 h
    rw [List.map_cons, readArguments_cons_eq_ok_iff, readArguments_cons_eq_ok_iff]
    simp only [ihPiece hpiece.1 hpiece.2, ihOthers hothers]

/-! ## Lines -/

/-- **Newlines as spaces.** If no newlines stand between a name and an opening parenthesis, a line is an expression
exactly if it is one with spaces for its newlines. If moreover none stand between an operand and a number with a sign,
and newlines are never all that the parentheses of a call hold, it is the same expression. -/
theorem parse_spaced {line : Text} (hcalls : CallsJoined (tokens line)) :
    ((∃ e, Expr.parse (spaced line) = .ok e) ↔ ∃ e, Expr.parse line = .ok e) ∧
      (SignsJoined (tokens line) → ParensJoined (tokens line) → ∀ e,
        Expr.parse (spaced line) = .ok e ↔ Expr.parse line = .ok e) := by
  constructor
  · rw [parse_ok_iff_accepts, parse_ok_iff_accepts, tokens_spaced]
    exact accepts_unbroken hcalls (.of_token (by simp)) false
  · intro hsigns hparens e
    rw [Expr.parse, Expr.parse, parsing_eq_ok_iff, parsing_eq_ok_iff, Expr.ofTokens, Expr.ofTokens, map_eq_ok_iff,
      map_eq_ok_iff, tokens_spaced, unbroken_eq_withoutNewlines hsigns (signsFit_tokens line) (.of_token (by simp))]
    simp only [(readElements_withoutNewlines line (spaced line)).1 _ hcalls hparens]

def wrappedCall : Text := "f(1,\n-2)".toList

/-- A newline behind a comma is like a space. -/
theorem parse_spaced_wrappedCall :
    CallsJoined (tokens wrappedCall) ∧ SignsJoined (tokens wrappedCall) ∧ ParensJoined (tokens wrappedCall) ∧
      ((∃ e, Expr.parse (spaced wrappedCall) = .ok e) ↔ ∃ e, Expr.parse wrappedCall = .ok e) ∧
      ∀ e, Expr.parse (spaced wrappedCall) = .ok e ↔ Expr.parse wrappedCall = .ok e := by
  have hcalls : CallsJoined (tokens wrappedCall) := by decide +kernel
  have hsigns : SignsJoined (tokens wrappedCall) := by decide +kernel
  have hparens : ParensJoined (tokens wrappedCall) := by decide +kernel
  obtain ⟨hsuccess, htree⟩ := parse_spaced hcalls
  exact ⟨hcalls, hsigns, hparens, hsuccess, htree hsigns hparens⟩

def brokenDifference : Text := "3\n-1".toList

def brokenCall : Text := "f\n(1,2)".toList

/-- the number of one decimal digit -/
def digitNumber (c : Char) : Binary64 := Radix.decimal.value [c] []

/-- **A newline is not always like a space.** Behind a newline a minus is a sign, and a name in front of one begins no
call. -/
theorem parse_spaced_brokenLines :
    Expr.parse brokenDifference = .ok (.sequence [.number (digitNumber '3'), .number (-digitNumber '1')]) ∧
      Expr.parse (spaced brokenDifference) =
        .ok (.sequence [.number (digitNumber '3'), .operator .subtract, .number (digitNumber '1')]) ∧
      (∃ e, Expr.parse brokenCall = .error e) ∧ ∃ e, Expr.parse (spaced brokenCall) = .ok e := by
  have hdifference : tokens brokenDifference =
      [⟨.number (digitNumber '3') .decimal, ⟨0, 1⟩⟩, ⟨.newline, ⟨1, 2⟩⟩, ⟨.number (-digitNumber '1') .decimal, ⟨2, 4⟩⟩,
        ⟨.endOfInput, ⟨4, 5⟩⟩] := by decide +kernel
  have hspaced : tokens (spaced brokenDifference) =
      [⟨.number (digitNumber '3') .decimal, ⟨0, 1⟩⟩, ⟨.operator .subtract, ⟨2, 3⟩⟩,
        ⟨.number (digitNumber '1') .decimal, ⟨3, 4⟩⟩, ⟨.endOfInput, ⟨4, 5⟩⟩] := by decide +kernel
  have hcall : tokens brokenCall =
      [⟨.name "f", ⟨0, 1⟩⟩, ⟨.newline, ⟨1, 2⟩⟩, ⟨.operator .leftParen, ⟨2, 3⟩⟩,
        ⟨.number (digitNumber '1') .decimal, ⟨3, 4⟩⟩, ⟨.punctuation .comma, ⟨4, 5⟩⟩,
        ⟨.number (digitNumber '2') .decimal, ⟨5, 6⟩⟩, ⟨.operator .rightParen, ⟨6, 7⟩⟩, ⟨.endOfInput, ⟨7, 8⟩⟩] := by
    decide +kernel
  refine ⟨?_, ?_, ?_, ?_⟩
  · rw [Expr.parse, hdifference]
    with_unfolding_all rfl
  · rw [Expr.parse, hspaced]
    with_unfolding_all rfl
  · rw [Expr.parse, hcall]
    exact ⟨_, by with_unfolding_all rfl⟩
  · rw [Expr.parse, tokens_spaced, hcall]
    exact ⟨_, by with_unfolding_all rfl⟩

end Calculator
