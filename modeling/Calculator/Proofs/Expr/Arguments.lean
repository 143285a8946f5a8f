/-
Arguments where they stand, behind the opening parenthesis of a call.

An argument stands behind that parenthesis or behind a comma, and in front of a comma or the closing parenthesis. All
parentheses that are opened in it are closed in it. `openAfter` keeps the open parentheses with the names of their
calls, so that what is known of a call and of its arguments can be told apart.

- `splitArguments_first`, `splitArguments_others`: every argument is the first one behind a parenthesis or comma;
- `exists_split_of_mem_callBody`: what stands around an argument, which closes what it opens;
- `openAfter_callBody_closed`, `openAfter_callBody_unclosed`: what is open behind a call, and in one that never ends.
-/
import Calculator.Proofs.Expr.Acceptance

namespace Calculator

/-! ## The text of an argument -/

/-- the span from the first to the last of some tokens -/
def sourceSpan : List Token → Span
  | [] => ⟨0, 0⟩
  | first :: rest => ⟨first.span.start, ((rest.getLast?).getD first).span.stop⟩

section

variable {line : Text} {ts : List Token}

theorem sourceText_eq (h : ts ≠ []) : sourceText line ts = (sourceSpan ts).text line := by
  cases ts with
  | nil => exact absurd rfl h
  | cons first rest => rfl

theorem exists_sourceSpan (h : ts ≠ []) :
    ∃ first last, ts.head? = some first ∧ ts.getLast? = some last ∧
      sourceSpan ts = ⟨first.span.start, last.span.stop⟩ := by
  cases ts with
  | nil => exact absurd rfl h
  | cons first rest => exact ⟨first, _, rfl, List.getLast?_cons, rfl⟩

end

/-! ## Open calls -/

/-- the name that a lexeme is -/
def Lexeme.name? : Lexeme → Option String
  | name n => some n
  | _ => none

theorem Lexeme.name?_eq_some_iff {l : Lexeme} {n : String} : l.name? = some n ↔ l = .name n := by
  cases l <;> simp [name?]

/-- The open parentheses behind tokens, up to the end of input: for each the name right before it, which makes it a
call, if there is one. `before` is the name right before the tokens. -/
def openAfter : List (Option String) → Option String → List Token → List (Option String)
  | opened, _, [] => opened
  | opened, before, t :: rest =>
    if t.lexeme = .endOfInput then opened else openAfter (openStep opened before t.lexeme) t.lexeme.name? rest

/-- tokens without the end of input, behind which nothing is open -/
structure Closes (opened : List (Option String)) (before : Option String) (ts : List Token) : Prop where
  noEnd : ∀ t ∈ ts, t.lexeme ≠ .endOfInput
  closed : openAfter opened before ts = []

section

variable {opened inner outer : List (Option String)} {before mark : Option String} {t : Token} {rest ts : List Token}

theorem openAfter_cons (h : t.lexeme ≠ .endOfInput) :
    openAfter opened before (t :: rest) = openAfter (openStep opened before t.lexeme) t.lexeme.name? rest := by
  rw [openAfter, if_neg h]

theorem openAfter_end (h : t.lexeme = .endOfInput) : openAfter opened before (t :: rest) = opened := by
  rw [openAfter, if_pos h]

theorem Closes.cons (ht : t.lexeme ≠ .endOfInput)
    (h : Closes (openStep opened before t.lexeme) t.lexeme.name? rest) : Closes opened before (t :: rest) :=
  ⟨List.forall_mem_cons.2 ⟨ht, h.noEnd⟩, by rw [openAfter_cons ht, h.closed]⟩

/-- The name and the parenthesis of a call are read as one. -/
theorem openAfter_call {p : Token} {name : String} (ht : t.lexeme = .name name) (hp : p.lexeme = .operator .leftParen) :
    openAfter opened before (t :: p :: rest) = openAfter (some name :: opened) none rest := by
  rw [openAfter_cons (by simp [ht]), openAfter_cons (by simp [hp]), ht, hp]
  rfl

/-! ## Behind the opening parenthesis -/

theorem CallBody.ending_push (t : Token) (b : CallBody) : (b.push t).ending = b.ending := by
  obtain ⟨_ | ⟨_, _⟩, _⟩ := b <;> rfl

theorem CallBody.arguments_push_eq_cons_iff {b : CallBody} {first : List Token} {others : List (List Token)} :
    (b.push t).arguments = first :: others ↔ ∃ rest, first = t :: rest ∧ b.arguments = rest :: others := by
  obtain ⟨_ | ⟨a, as⟩, e⟩ := b
  · simp [push]
  · constructor
    · intro h
      obtain ⟨rfl, rfl⟩ := List.cons.inj h
      exact ⟨a, rfl, rfl⟩
    · intro h
      obtain ⟨rest, rfl, h⟩ := h
      obtain ⟨rfl, rfl⟩ := List.cons.inj h
      rfl

theorem CallBody.arguments_push_eq_nil {b : CallBody} (h : b.arguments = []) : (b.push t).arguments = [] := by
  obtain ⟨arguments, ending⟩ := b
  cases h
  rfl

/-- A call that is closed has a first argument, which may be empty. -/
theorem arguments_ne_nil {depth : Nat} {after : List Token} (h : (splitArguments depth ts).ending = .closed after) :
    (splitArguments depth ts).arguments ≠ [] := by
  intro hempty
  refine splitArguments_ne depth ts after ?_
  rw [← h, ← hempty]

/-- a lexeme that an argument ends in front of -/
def EndsArgument (l : Lexeme) : Prop := l = .operator .rightParen ∨ l = .punctuation .comma

/-- The first argument stands in front, up to what ends it, and closes the parentheses it stands in. -/
theorem splitArguments_first {depth : Nat} (hdepth : inner.length = depth) {first : List Token}
    {others : List (List Token)} (h : (splitArguments depth ts).arguments = first :: others) :
    (∃ stop after, ts = first ++ stop :: after ∧ EndsArgument stop.lexeme) ∧ Closes inner before first := by
  induction depth, ts using splitting_induct generalizing inner before first with
  | nil depth => simp [splitArguments] at h
  | stop depth t rest ht => simp [splitArguments_end depth ht] at h
  | closing t rest ht =>
    obtain rfl := List.length_eq_zero_iff.1 hdepth
    rw [splitArguments_closing ht] at h
    obtain ⟨rfl, -⟩ := List.cons.inj h
    exact ⟨⟨t, rest, rfl, .inl ht⟩, by simp, rfl⟩
  | comma t rest ht _ =>
    obtain rfl := List.length_eq_zero_iff.1 hdepth
    rw [splitArguments_comma ht] at h
    obtain ⟨rfl, -⟩ := List.cons.inj h
    exact ⟨⟨t, rest, rfl, .inr ht⟩, by simp, rfl⟩
  | inside depth t rest ht ih =>
    subst hdepth
    rw [splitArguments_inside ht] at h
    obtain ⟨first, rfl, hfirst⟩ := CallBody.arguments_push_eq_cons_iff.1 h
    obtain ⟨⟨stop, after, rfl, hstop⟩, hcloses⟩ := ih (length_openStep inner before t.lexeme) hfirst
    exact ⟨⟨stop, after, rfl, hstop⟩, hcloses.cons ht.1⟩

/-- Every argument but the first is the first one behind a comma. -/
theorem splitArguments_others {depth : Nat} {first piece : List Token} {others : List (List Token)}
    (h : (splitArguments depth ts).arguments = first :: others) (hpiece : piece ∈ others) :
    ∃ us comma rest, ts = us ++ comma :: rest ∧ comma.lexeme = .punctuation .comma ∧
      (splitArguments 0 rest).arguments.head? = some piece := by
  induction depth, ts using splitting_induct generalizing first others with
  | nil depth => simp [splitArguments] at h
  | stop depth t rest ht => simp [splitArguments_end depth ht] at h
  | closing t rest ht =>
    rw [splitArguments_closing ht] at h
    obtain ⟨-, rfl⟩ := List.cons.inj h
    cases hpiece
  | comma t rest ht ih =>
    rw [splitArguments_comma ht] at h
    obtain ⟨-, hothers⟩ := List.cons.inj h
    obtain ⟨a, as, rfl⟩ := List.exists_cons_of_ne_nil (List.ne_nil_of_mem hpiece)
    rcases List.mem_cons.1 hpiece with rfl | hpiece
    · exact ⟨[], t, rest, rfl, ht, by rw [hothers]; rfl⟩
    · obtain ⟨us, comma, later, rfl, hcomma, hhead⟩ := ih hothers hpiece
      exact ⟨t :: us, comma, later, rfl, hcomma, hhead⟩
  | inside depth t rest ht ih =>
    rw [splitArguments_inside ht] at h
    obtain ⟨first, rfl, hfirst⟩ := CallBody.arguments_push_eq_cons_iff.1 h
    obtain ⟨us, comma, later, rfl, hcomma, hhead⟩ := ih hfirst hpiece
    exact ⟨t :: us, comma, later, rfl, hcomma, hhead⟩

/-- What stands behind a call stands at the end. -/
theorem suffix_of_closed {depth : Nat} {after : List Token} (h : (splitArguments depth ts).ending = .closed after) :
    after <:+ ts := by
  induction depth, ts using splitting_induct with
  | nil depth => cases h
  | stop depth t rest ht => rw [splitArguments_end depth ht] at h; cases h
  | closing t rest ht =>
    rw [splitArguments_closing ht] at h
    cases h
    exact List.suffix_cons t _
  | comma t rest ht ih =>
    rw [splitArguments_comma ht] at h
    exact (ih h).trans (List.suffix_cons t rest)
  | inside depth t rest ht ih =>
    rw [splitArguments_inside ht, CallBody.ending_push] at h
    exact (ih h).trans (List.suffix_cons t rest)

/-- What is open behind a call is what was open before it, and what the tokens behind it open. -/
theorem openAfter_closed {depth : Nat} (hdepth : inner.length = depth) {after : List Token}
    (h : (splitArguments depth ts).ending = .closed after) :
    openAfter (inner ++ mark :: outer) before ts = openAfter outer none after := by
  induction depth, ts using splitting_induct generalizing inner before with
  | nil depth => cases h
  | stop depth t rest ht => rw [splitArguments_end depth ht] at h; cases h
  | closing t rest ht =>
    obtain rfl := List.length_eq_zero_iff.1 hdepth
    rw [splitArguments_closing ht] at h
    cases h
    rw [openAfter_cons (by simp [ht]), ht]
    rfl
  | comma t rest ht ih =>
    obtain rfl := List.length_eq_zero_iff.1 hdepth
    rw [splitArguments_comma ht] at h
    rw [openAfter_cons (by simp [ht]), ht]
    exact ih hdepth h
  | inside depth t rest ht ih =>
    subst hdepth
    rw [splitArguments_inside ht, CallBody.ending_push] at h
    rw [openAfter_cons ht.1, openStep_inside ht]
    exact ih (length_openStep inner before t.lexeme) h

/-- A call that never ends stays open. -/
theorem openAfter_unclosed {depth : Nat} (hdepth : inner.length = depth) {span : Option Span}
    (h : (splitArguments depth ts).ending = .unclosed span) :
    ∃ more, openAfter (inner ++ outer) before ts = more ++ outer := by
  induction depth, ts using splitting_induct generalizing inner before with
  | nil depth => exact ⟨inner, rfl⟩
  | stop depth t rest ht => exact ⟨inner, openAfter_end ht⟩
  | closing t rest ht => rw [splitArguments_closing ht] at h; cases h
  | comma t rest ht ih =>
    obtain rfl := List.length_eq_zero_iff.1 hdepth
    rw [splitArguments_comma ht] at h
    rw [openAfter_cons (by simp [ht]), ht]
    exact ih hdepth h
  | inside depth t rest ht ih =>
    subst hdepth
    rw [splitArguments_inside ht, CallBody.ending_push] at h
    rw [openAfter_cons ht.1, openStep_inside ht]
    exact ih (length_openStep inner before t.lexeme) h

/-! ## Calls -/

theorem callBody_ending (ts : List Token) : (callBody ts).ending = (splitArguments 0 ts).ending := by
  unfold callBody
  split
  · rename_i h; rw [h]
  · rfl

theorem mem_splitArguments_of_mem_callBody {piece : List Token} (h : piece ∈ (callBody ts).arguments) :
    piece ∈ (splitArguments 0 ts).arguments := by
  unfold callBody at h
  split at h
  · cases h
  · exact h

/-- An argument is the first one behind the opening parenthesis or behind a comma. -/
theorem exists_first_of_mem_callBody {piece : List Token} (h : piece ∈ (callBody ts).arguments) :
    ∃ us rest, ts = us ++ rest ∧ (∀ t ∈ us.getLast?, t.lexeme = .punctuation .comma) ∧
      (splitArguments 0 rest).arguments.head? = some piece := by
  have hmem := mem_splitArguments_of_mem_callBody h
  obtain ⟨first, others, hsplit⟩ := List.exists_cons_of_ne_nil (List.ne_nil_of_mem hmem)
  rw [hsplit] at hmem
  rcases List.mem_cons.1 hmem with rfl | hother
  · exact ⟨[], ts, rfl, by simp, by rw [hsplit]; rfl⟩
  · obtain ⟨us, comma, rest, rfl, hcomma, hhead⟩ := splitArguments_others hsplit hother
    refine ⟨us ++ [comma], rest, by simp, ?_, hhead⟩
    intro t ht
    rw [List.getLast?_concat] at ht
    cases ht
    exact hcomma

/-- An argument stands between parentheses and commas, and opens nothing that it does not close. -/
theorem exists_split_of_mem_callBody {piece : List Token} (h : piece ∈ (callBody ts).arguments) :
    (∃ us stop after, ts = us ++ (piece ++ stop :: after) ∧ EndsArgument stop.lexeme ∧
      ∀ t ∈ us.getLast?, t.lexeme = .punctuation .comma) ∧ Closes [] none piece := by
  obtain ⟨us, rest, rfl, hlast, hhead⟩ := exists_first_of_mem_callBody h
  obtain ⟨others, hsplit⟩ := List.head?_eq_some_iff.1 hhead
  obtain ⟨⟨stop, after, rfl, hstop⟩, hcloses⟩ :
      (∃ stop after, rest = piece ++ stop :: after ∧ EndsArgument stop.lexeme) ∧ Closes [] none piece :=
    splitArguments_first List.length_nil hsplit
  exact ⟨⟨us, stop, after, rfl, hstop, hlast⟩, hcloses⟩

section

variable {pieces : List (List Token)} {ending : CallEnding} (h : callBody ts = ⟨pieces, ending⟩)

include h

theorem ending_of_callBody : (splitArguments 0 ts).ending = ending := by rw [← callBody_ending, h]

theorem closes_of_callBody : ∀ piece ∈ pieces, Closes [] none piece := by
  intro piece hpiece
  have hmem : piece ∈ (callBody ts).arguments := by rwa [h]
  exact (exists_split_of_mem_callBody hmem).2

/-- An argument stands in one piece behind the opening parenthesis. -/
theorem isInfix_of_callBody {piece : List Token} (hpiece : piece ∈ pieces) : piece <:+: ts := by
  have hmem : piece ∈ (callBody ts).arguments := by rwa [h]
  obtain ⟨⟨us, stop, after, hsplit, -⟩, -⟩ := exists_split_of_mem_callBody hmem
  exact ⟨us, stop :: after, by rw [hsplit, List.append_assoc]⟩

/-- The tokens of an argument are among those behind the opening parenthesis. -/
theorem sublist_of_callBody {piece : List Token} (hpiece : piece ∈ pieces) : piece.Sublist ts :=
  (isInfix_of_callBody h hpiece).sublist

end

section

variable {p : Token} {after : List Token} {name : String} {pieces : List (List Token)} {span : Option Span}

/-- Behind a call the same is open as in front of it. -/
theorem openAfter_callBody_closed (opened : List (Option String)) (before : Option String)
    (ht : t.lexeme = .name name) (hp : p.lexeme = .operator .leftParen)
    (hbody : callBody ts = ⟨pieces, .closed after⟩) :
    openAfter opened before (t :: p :: ts) = openAfter opened none after := by
  have hbehind : openAfter ([] ++ some name :: opened) none ts = openAfter opened none after :=
    openAfter_closed List.length_nil (ending_of_callBody hbody)
  rw [openAfter_call ht hp]
  exact hbehind

theorem openAfter_callBody_unclosed (opened : List (Option String)) (before : Option String)
    (ht : t.lexeme = .name name) (hp : p.lexeme = .operator .leftParen)
    (hbody : callBody ts = ⟨pieces, .unclosed span⟩) :
    ∃ more, openAfter opened before (t :: p :: ts) = more ++ some name :: opened := by
  have hopen : ∃ more, openAfter ([] ++ some name :: opened) none ts = more ++ some name :: opened :=
    openAfter_unclosed List.length_nil (ending_of_callBody hbody)
  rw [openAfter_call ht hp]
  exact hopen

end

end

end Calculator
