/-
Arguments on their own.

An argument is read from tokens that were set aside, without an end of input, and its errors are placed in the line. It
is read as its text alone would be. Between what stands before it and behind it, its tokens are those of its text, moved
by where it begins (`Lexed.stretch`); and as it closes what it opens, the end of input makes no difference.

- `readElements_shift`: tokens that are moved with their text stand for the same, and their errors are moved;
- `readElements_concat_end`: behind tokens that close their calls, the end of input makes no difference;
- `argument_parse`: an argument is read as its text is.
-/
import Calculator.Proofs.Expr.Arguments
import Calculator.Proofs.Token.Slices

namespace Calculator

/-! ## Moved tokens -/

def ParseError.shift (offset : Nat) (e : ParseError) : ParseError := { e with span := e.span.map (Span.shift offset) }

def CallEnding.shift (offset : Nat) : CallEnding → CallEnding
  | closed rest => closed (rest.map (Token.shift offset))
  | unclosed span => unclosed (span.map (Span.shift offset))

def CallBody.shift (offset : Nat) (b : CallBody) : CallBody :=
  ⟨b.arguments.map (List.map (Token.shift offset)), b.ending.shift offset⟩

section

variable {offset : Nat}

theorem CallBody.shift_push (t : Token) (b : CallBody) :
    (b.push t).shift offset = (b.shift offset).push (t.shift offset) := by
  obtain ⟨_ | ⟨_, _⟩, _⟩ := b <;> rfl

theorem splitArguments_shift (depth : Nat) (ts : List Token) :
    splitArguments depth (ts.map (Token.shift offset)) = (splitArguments depth ts).shift offset := by
  induction depth, ts using splitting_induct with
  | nil depth => rfl
  | stop depth t rest ht =>
    rw [List.map_cons, splitArguments_end (t := t.shift offset) depth ht, splitArguments_end depth ht]
    rfl
  | closing t rest ht =>
    rw [List.map_cons, splitArguments_closing (t := t.shift offset) ht, splitArguments_closing ht]
    rfl
  | comma t rest ht ih =>
    rw [List.map_cons, splitArguments_comma (t := t.shift offset) ht, splitArguments_comma ht, ih]
    rfl
  | inside depth t rest ht ih =>
    rw [List.map_cons, splitArguments_inside (t := t.shift offset) ht, splitArguments_inside ht, CallBody.shift_push,
      ← ih]
    rfl

theorem callBody_shift (ts : List Token) : callBody (ts.map (Token.shift offset)) = (callBody ts).shift offset := by
  unfold callBody
  rw [splitArguments_shift]
  obtain ⟨_ | ⟨_ | ⟨_, _⟩, _ | ⟨_, _⟩⟩, _ | _⟩ := splitArguments 0 ts <;> rfl

theorem parsing_shift {α : Type} (frame : ParseFrame) (x : Except ParseError α) :
    parsing frame (x.mapError (ParseError.shift offset)) = (parsing frame x).mapError (ParseError.shift offset) := by
  cases x with
  | ok a => rfl
  | error e => rfl

end

section

variable (before text behind : Text) {offset : Nat} (hoffset : before.length = offset)

include hoffset

/-- The text of moved tokens is what they have in the stretch. -/
theorem sourceText_shift {ts : List Token} (h : ∀ t ∈ ts, t.span.stop ≤ text.length) :
    sourceText (before ++ (text ++ behind)) (ts.map (Token.shift offset)) = sourceText text ts := by
  cases ts with
  | nil => rfl
  | cons first rest =>
    have hlast : ((rest.getLast?).getD first).span.stop ≤ text.length :=
      h _ (List.mem_of_getLast? List.getLast?_cons)
    have hmoved : ((rest.map (Token.shift offset)).getLast?).getD (first.shift offset) =
        ((rest.getLast?).getD first).shift offset := by
      rw [List.getLast?_map]
      cases rest.getLast? <;> rfl
    rw [List.map_cons, sourceText, hmoved, ← hoffset]
    exact Span.text_shift (s := ⟨first.span.start, _⟩) hlast

/-- **Moved tokens.** What tokens of a stretch stand for, they stand for in the line, where errors are moved. -/
theorem readElements_shift :
    (∀ ts, (∀ t ∈ ts, t.span.stop ≤ text.length) →
      readElements (before ++ (text ++ behind)) (ts.map (Token.shift offset)) =
        (readElements text ts).mapError (ParseError.shift offset)) ∧
    ∀ pieces, (∀ piece ∈ pieces, ∀ t ∈ piece, t.span.stop ≤ text.length) →
      readArguments (before ++ (text ++ behind)) (pieces.map (List.map (Token.shift offset))) =
        (readArguments text pieces).mapError (ParseError.shift offset) := by
  refine reading_induct ?nil ?stop ?newline ?element ?fault ?closed ?unclosed ?none ?argument
  case nil =>
    intro _
    rw [List.map_nil, readElements_nil, readElements_nil]
    rfl
  case stop =>
    intro t rest ht _
    rw [List.map_cons, readElements_end (t := t.shift offset) ht, readElements_end ht]
    rfl
  case newline =>
    intro t rest ht ih hstop
    rw [List.map_cons, readElements_newline (t := t.shift offset) ht, readElements_newline ht,
      ih (List.forall_mem_cons.1 hstop).2]
  case element =>
    intro t rest e ht hcall ih hstop
    have hcall' : ¬ StartsCall (t.shift offset) (rest.map (Token.shift offset)) := by
      intro h
      obtain ⟨name, p, inner, hname, hrest, hparen⟩ := h
      obtain ⟨p, inner, rfl, rfl, -⟩ := List.map_eq_cons_iff.1 hrest
      exact hcall ⟨name, p, inner, hname, rfl, hparen⟩
    rw [List.map_cons, readElements_element (t := t.shift offset) ht hcall', readElements_element ht hcall,
      ih (List.forall_mem_cons.1 hstop).2, mapError_map]
  case fault =>
    intro t rest f ht _
    rw [List.map_cons, readElements_fault (t := t.shift offset) ht, readElements_fault ht]
    rfl
  case closed =>
    intro t p inner name pieces after ht hp hbody ihPieces ihAfter hstop
    have hinner : ∀ u ∈ inner, u.span.stop ≤ text.length :=
      fun u hu => hstop u (List.mem_cons_of_mem _ (List.mem_cons_of_mem _ hu))
    have hpieces : ∀ piece ∈ pieces, ∀ u ∈ piece, u.span.stop ≤ text.length :=
      fun piece hpiece u hu => hinner u ((sublist_of_callBody hbody hpiece).subset hu)
    have hafter : ∀ u ∈ after, u.span.stop ≤ text.length :=
      fun u hu => hinner u ((suffix_of_closed (ending_of_callBody hbody)).subset hu)
    have hbody' : callBody (inner.map (Token.shift offset)) =
        ⟨pieces.map (List.map (Token.shift offset)), .closed (after.map (Token.shift offset))⟩ := by
      rw [callBody_shift, hbody]
      rfl
    rw [List.map_cons, List.map_cons, readElements_closed (t := t.shift offset) (p := p.shift offset) ht hp hbody',
      readElements_closed ht hp hbody, ihPieces hpieces, ihAfter hafter, parsing_shift]
    simp only [mapError_bind]
    rfl
  case unclosed =>
    intro t p inner name pieces span ht hp hbody ihPieces hstop
    have hinner : ∀ u ∈ inner, u.span.stop ≤ text.length :=
      fun u hu => hstop u (List.mem_cons_of_mem _ (List.mem_cons_of_mem _ hu))
    have hpieces : ∀ piece ∈ pieces, ∀ u ∈ piece, u.span.stop ≤ text.length :=
      fun piece hpiece u hu => hinner u ((sublist_of_callBody hbody hpiece).subset hu)
    have hbody' : callBody (inner.map (Token.shift offset)) =
        ⟨pieces.map (List.map (Token.shift offset)), .unclosed (span.map (Span.shift offset))⟩ := by
      rw [callBody_shift, hbody]
      rfl
    rw [List.map_cons, List.map_cons, readElements_unclosed (t := t.shift offset) (p := p.shift offset) ht hp hbody',
      readElements_unclosed ht hp hbody, ihPieces hpieces, ← parsing_shift, mapError_bind]
    rfl
  case none =>
    intro _
    rw [List.map_nil, readArguments_nil, readArguments_nil]
    rfl
  case argument =>
    intro piece others ihPiece ihOthers hstop
    obtain ⟨hpiece, hothers⟩ := List.forall_mem_cons.1 hstop
    rw [List.map_cons, readArguments_cons, readArguments_cons, sourceText_shift before text behind hoffset hpiece,
      ihPiece hpiece, ihOthers hothers, parsing_shift]
    simp only [mapError_bind]
    rfl

end

/-! ## The end of input -/

section

variable {line : Text} {ts us after piece : List Token}

theorem CallBody.push_mk (t : Token) (b : CallBody) (ending : CallEnding) :
    push t ⟨b.arguments, ending⟩ = ⟨(b.push t).arguments, ending⟩ := by
  obtain ⟨_ | ⟨_, _⟩, _⟩ := b <;> rfl

/-- A call that is closed ends in front of further tokens as well. -/
theorem splitArguments_append {depth : Nat} (h : (splitArguments depth ts).ending = .closed after) :
    splitArguments depth (ts ++ us) = ⟨(splitArguments depth ts).arguments, .closed (after ++ us)⟩ := by
  induction depth, ts using splitting_induct with
  | nil depth => cases h
  | stop depth t rest ht => rw [splitArguments_end depth ht] at h; cases h
  | closing t rest ht =>
    rw [splitArguments_closing ht] at h ⊢
    cases h
    exact splitArguments_closing ht
  | comma t rest ht ih =>
    rw [splitArguments_comma ht] at h ⊢
    rw [List.cons_append, splitArguments_comma ht, ih h]
    rfl
  | inside depth t rest ht ih =>
    rw [splitArguments_inside ht] at h ⊢
    rw [CallBody.ending_push] at h
    rw [List.cons_append, splitArguments_inside ht, ih h, CallBody.push_mk]

theorem callBody_append {pieces : List (List Token)} (h : callBody ts = ⟨pieces, .closed after⟩) :
    callBody (ts ++ us) = ⟨pieces, .closed (after ++ us)⟩ := by
  obtain ⟨arguments, hsplit, rfl⟩ := callBody_eq_closed_iff.1 h
  refine callBody_eq_closed_iff.2 ⟨arguments, ?_, rfl⟩
  rw [splitArguments_append (by rw [hsplit]), hsplit]

/-- Behind tokens that close all calls, the end of input makes no difference. -/
theorem readElements_concat_end {stop : Token} (hstop : stop.lexeme = .endOfInput) :
    (∀ ts opened before, openAfter opened before ts = [] → readElements line (ts ++ [stop]) = readElements line ts) ∧
      ∀ _ : List (List Token), True := by
  refine reading_induct ?nil ?stop ?newline ?element ?fault ?closed ?unclosed trivial fun _ _ _ _ => trivial
  case nil =>
    intro opened before _
    rw [List.nil_append, readElements_end hstop, readElements_nil]
  case stop =>
    intro t rest ht opened before _
    rw [List.cons_append, readElements_end ht, readElements_end ht]
  case newline =>
    intro t rest ht ih opened before hopen
    rw [openAfter_cons (by simp [ht])] at hopen
    rw [List.cons_append, readElements_newline ht, readElements_newline ht, ih _ _ hopen]
  case element =>
    intro t rest e ht hcall ih opened before hopen
    rw [openAfter_cons (Lexeme.ne_endOfInput_of_element? ht)] at hopen
    have hcall' : ¬ StartsCall t (rest ++ [stop]) := by
      intro h
      obtain ⟨name, p, inner, hname, hrest, hparen⟩ := h
      cases rest with
      | nil =>
        obtain ⟨rfl, -⟩ := List.cons.inj hrest
        rw [hstop] at hparen
        cases hparen
      | cons p' rest =>
        obtain ⟨rfl, -⟩ := List.cons.inj hrest
        exact hcall ⟨name, _, rest, hname, rfl, hparen⟩
    rw [List.cons_append, readElements_element ht hcall', readElements_element ht hcall, ih _ _ hopen]
  case fault =>
    intro t rest f ht opened before _
    rw [List.cons_append, readElements_fault ht, readElements_fault ht]
  case closed =>
    intro t p inner name pieces after ht hp hbody _ ihAfter opened before hopen
    rw [openAfter_callBody_closed opened before ht hp hbody] at hopen
    rw [List.cons_append, List.cons_append, readElements_closed ht hp (callBody_append hbody),
      readElements_closed ht hp hbody, ihAfter opened none hopen]
  case unclosed =>
    intro t p inner name pieces span ht hp hbody _ opened before hopen
    obtain ⟨more, hmore⟩ := openAfter_callBody_unclosed opened before ht hp hbody
    exact absurd (hmore.symm.trans hopen) (by simp)

/-! ## Arguments of a line -/

/-- the complete arguments of the calls in some tokens, and of those in arguments -/
inductive ArgumentIn : List Token → List Token → Prop where
  | call (us : List Token) {t p : Token} {inner piece : List Token} {name : String} (ht : t.lexeme = .name name)
      (hp : p.lexeme = .operator .leftParen) (hpiece : piece ∈ (callBody inner).arguments) :
      ArgumentIn (us ++ t :: p :: inner) piece
  | nested {ts outer piece : List Token} (houter : ArgumentIn ts outer) (hpiece : ArgumentIn outer piece) :
      ArgumentIn ts piece

/-- What stands right before an argument ends no operand, and what stands right behind it breaks off a token. -/
theorem ArgumentIn.exists_split (h : ArgumentIn ts piece) :
    (∃ us start stop after, ts = us ++ start :: (piece ++ stop :: after) ∧ start.lexeme.endsOperand = false ∧
      EndsArgument stop.lexeme) ∧ Closes [] none piece := by
  induction h with
  | @call us t p inner piece name ht hp hpiece =>
    obtain ⟨⟨others, stop, after, rfl, hstop, hlast⟩, hcloses⟩ := exists_split_of_mem_callBody hpiece
    refine ⟨?_, hcloses⟩
    rcases List.eq_nil_or_concat others with rfl | ⟨others, comma, rfl⟩
    · exact ⟨us ++ [t], p, stop, after, by simp, by rw [hp]; rfl, hstop⟩
    · have hcomma := hlast comma (by simp)
      exact ⟨us ++ t :: p :: others, comma, stop, after, by simp, by rw [hcomma]; rfl, hstop⟩
  | nested _ _ ihOuter ihPiece =>
    obtain ⟨⟨us, start, stop, after, rfl, -, -⟩, -⟩ := ihOuter
    obtain ⟨⟨others, start', stop', after', rfl, hstart, hstop⟩, hcloses⟩ := ihPiece
    exact ⟨⟨us ++ start :: others, start', stop', after' ++ stop :: after, by simp, hstart, hstop⟩, hcloses⟩

theorem openAfter_shift (offset : Nat) (opened : List (Option String)) (before : Option String) (ts : List Token) :
    openAfter opened before (ts.map (Token.shift offset)) = openAfter opened before ts := by
  induction ts generalizing opened before with
  | nil => rfl
  | cons t rest ih => simp only [List.map_cons, openAfter, Token.lexeme_shift, ih]

theorem foldl_stop (first : Token) (others : List Token) :
    others.foldl (fun _ t => t.span.stop) first.span.stop = ((others.getLast?).getD first).span.stop := by
  rcases List.eq_nil_or_concat others with rfl | ⟨others, last, rfl⟩
  · rfl
  · simp

/-- The tokens of an argument are those of its text, moved by where it begins. -/
theorem ArgumentIn.exists_tokens (h : ArgumentIn (tokens line) piece) :
    ∃ front behind ts, line = front ++ (sourceText line piece ++ behind) ∧ front.length = (sourceSpan piece).start ∧
      tokens (sourceText line piece) = ts ++ [Lexer.endToken (sourceText line piece).length] ∧
      piece = ts.map (Token.shift (sourceSpan piece).start) ∧
      ∀ t ∈ ts, t.span.stop ≤ (sourceText line piece).length := by
  obtain ⟨⟨us, start, stop, after, hsplit, hstart, hstop⟩, -⟩ := h.exists_split
  obtain ⟨all, hlexed, htokens⟩ := exists_lexed_tokens line
  have hall : ∃ after, all = us ++ [start] ++ (piece ++ stop :: after) := by
    rw [htokens] at hsplit
    rcases List.eq_nil_or_concat after with rfl | ⟨after, last, rfl⟩
    · rw [← List.cons_append, ← List.append_assoc] at hsplit
      obtain ⟨-, hlast⟩ := List.append_inj' hsplit rfl
      obtain rfl := List.cons.inj hlast |>.1
      rcases hstop with hstop | hstop <;> cases hstop
    · refine ⟨after, ?_⟩
      have hlast : all ++ [Lexer.endToken line.length] = us ++ start :: (piece ++ stop :: after) ++ [last] := by
        rw [hsplit]
        simp
      simpa using (List.append_inj' hlast rfl).1
  obtain ⟨after, rfl⟩ := hall
  cases piece with
  | nil => exact ⟨[], line, [], rfl, rfl, Lexer.tokensFrom_nil 0 false, rfl, by simp⟩
  | cons first others =>
    have hus : (us ++ [start]).foldl (fun _ t => t.lexeme.endsOperand) false = false := by
      rw [List.foldl_append]
      exact hstart
    obtain ⟨front, text, behind, rfl, hfirst, hlast, hpiece⟩ := hlexed.stretch hus hstop
    have hspan : sourceSpan (first :: others) = ⟨front.length, front.length + text.length⟩ := by
      rw [sourceSpan, ← foldl_stop, hfirst, hlast]
    have htext : sourceText (front ++ (text ++ behind)) (first :: others) = text := by
      rw [sourceText_eq (by simp), hspan]
      simp [Span.text, Span.length]
    rw [htext, hspan]
    obtain ⟨ts, hts, htokens⟩ := exists_lexed_tokens text
    refine ⟨front, behind, ts, rfl, rfl, htokens, hpiece.unique (hts.shift front.length), fun t ht => ?_⟩
    simpa using (hts.span_bounds ht).2.2

/-- **Arguments on their own.** A complete argument of a call in a line, or in an argument of one, is read as its text
is parsed alone: as the same, or with the same error, the span of which is moved by where the argument begins. -/
theorem argument_parse (h : ArgumentIn (tokens line) piece) :
    parsing (.source (sourceText line piece)) (Expr.ofTokens line piece) =
      (Expr.parse (sourceText line piece)).mapError (ParseError.shift (sourceSpan piece).start) := by
  obtain ⟨-, hcloses⟩ := h.exists_split
  obtain ⟨front, behind, ts, hline, hoffset, htokens, hpiece, hstop⟩ := h.exists_tokens
  generalize sourceText line piece = text at *
  generalize (sourceSpan piece).start = offset at *
  have hread : readElements line piece = (readElements text ts).mapError (ParseError.shift offset) := by
    rw [hpiece, hline]
    exact (readElements_shift front text behind hoffset).1 ts hstop
  have hend : readElements text (tokens text) = readElements text ts := by
    rw [htokens]
    refine (readElements_concat_end rfl).1 ts [] none ?_
    rw [← openAfter_shift offset, ← hpiece]
    exact hcloses.closed
  rw [Expr.parse, ← parsing_shift, Expr.ofTokens, Expr.ofTokens, mapError_map, hend, hread]

end

/-- a line with an error in a call in an argument -/
def innerLine : Text := ['f', '(', 'g', '(', 'b', '$', ')', ',', 'a', ')']

def innerArgument : List Token := [⟨.name "b", ⟨4, 5⟩⟩, ⟨.invalid ['$'], ⟨5, 6⟩⟩]

theorem argument_parse_innerLine :
    ArgumentIn (tokens innerLine) innerArgument ∧
      parsing (.source (sourceText innerLine innerArgument)) (Expr.ofTokens innerLine innerArgument) =
        (Expr.parse (sourceText innerLine innerArgument)).mapError
          (ParseError.shift (sourceSpan innerArgument).start) := by
  have htokens : tokens innerLine =
      [⟨.name "f", ⟨0, 1⟩⟩, ⟨.operator .leftParen, ⟨1, 2⟩⟩, ⟨.name "g", ⟨2, 3⟩⟩, ⟨.operator .leftParen, ⟨3, 4⟩⟩,
        ⟨.name "b", ⟨4, 5⟩⟩, ⟨.invalid ['$'], ⟨5, 6⟩⟩, ⟨.operator .rightParen, ⟨6, 7⟩⟩, ⟨.punctuation .comma, ⟨7, 8⟩⟩,
        ⟨.name "a", ⟨8, 9⟩⟩, ⟨.operator .rightParen, ⟨9, 10⟩⟩, ⟨.endOfInput, ⟨10, 11⟩⟩] := by
    decide +kernel
  have hargument : ArgumentIn (tokens innerLine) innerArgument := by
    rw [htokens]
    exact .nested (.call [] rfl rfl (.head _)) (.call [] rfl rfl (.head _))
  exact ⟨hargument, argument_parse hargument⟩

end Calculator
