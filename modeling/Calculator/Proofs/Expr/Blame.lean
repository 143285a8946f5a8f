/-
Which token a line is refused for, and what the context of the error quotes.

An error in an argument is an error behind the opening parenthesis of the call. So the reader refuses a line for the
first token that is not admitted, and each call around that token adds the argument and the name to the context
(`Around`). Or nothing is wrong so far, and a call never ends; then no argument is being read.

- `readElements_error`: an error is one of these two;
- `Around.exists_spans`: what is quoted is a stretch of the line, wider with every call;
- `parse_error_place`: the errors of a line.
-/
import Calculator.Proofs.Expr.Offenders
import Calculator.Proofs.Token.Tiling

namespace Calculator

/-! ## Stretches of a line -/

/-- a span inside another -/
def Span.Within (a b : Span) : Prop := b.start ≤ a.start ∧ a.stop ≤ b.stop

theorem Span.Within.trans {a b c : Span} (hab : a.Within b) (hbc : b.Within c) : a.Within c :=
  ⟨Nat.le_trans hbc.1 hab.1, Nat.le_trans hab.2 hbc.2⟩

/-- tokens whose spans follow one another -/
structure InOrder (ts : List Token) : Prop where
  start_le : ∀ t ∈ ts, t.span.start ≤ t.span.stop
  ordered : ts.Pairwise fun t u => t.span.stop ≤ u.span.start

section

variable {t : Token} {ts us : List Token}

theorem InOrder.sublist (h : InOrder us) (hsub : ts.Sublist us) : InOrder ts :=
  ⟨fun t ht => h.start_le t (hsub.subset ht), h.ordered.sublist hsub⟩

theorem InOrder.within_sourceSpan (h : InOrder ts) (ht : t ∈ ts) : t.span.Within (sourceSpan ts) := by
  obtain ⟨first, last, hfirst, hlast, hspan⟩ := exists_sourceSpan (List.ne_nil_of_mem ht)
  rw [hspan]
  constructor
  · obtain ⟨rest, rfl⟩ := List.head?_eq_some_iff.1 hfirst
    rcases List.mem_cons.1 ht with rfl | ht
    · exact Nat.le_refl _
    · exact Nat.le_trans (h.start_le first List.mem_cons_self) (List.rel_of_pairwise_cons h.ordered ht)
  · obtain ⟨init, rfl⟩ := List.getLast?_eq_some_iff.1 hlast
    rcases List.mem_append.1 ht with ht | ht
    · have hle := (List.pairwise_append.1 h.ordered).2.2 t ht last List.mem_cons_self
      exact Nat.le_trans hle (h.start_le last (List.mem_of_getLast? hlast))
    · rw [List.mem_singleton.1 ht]

/-- The span of some tokens lies where these do. -/
theorem sourceSpan_within {whole : Span} (hne : ts ≠ []) (h : ∀ t ∈ ts, t.span.Within whole) :
    (sourceSpan ts).Within whole := by
  obtain ⟨first, last, hfirst, hlast, hspan⟩ := exists_sourceSpan hne
  rw [hspan]
  exact ⟨(h first (List.mem_of_head? hfirst)).1, (h last (List.mem_of_getLast? hlast)).2⟩

end

/-! ## Errors of a sequence -/

/-- the span of the end of input -/
def endSpan? (ts : List Token) : Option Span := (ts.find? fun t => t.lexeme = .endOfInput).map (·.span)

def CallEnding.endSpan? : CallEnding → Option Span
  | closed after => Calculator.endSpan? after
  | unclosed span => span

/-- `Around line t ts frames names`: the token `t` stands in `ts`, inside arguments of the calls `names`, and `frames`
quotes these. -/
inductive Around (line : Text) (t : Token) : List Token → List ParseFrame → List String → Prop where
  | here {ts : List Token} (ht : t ∈ ts) : Around line t ts [] []
  | call {ts piece : List Token} {frames : List ParseFrame} {names : List String} (name : String)
      (hpiece : piece.Sublist ts) (hend : ∀ u ∈ piece, u.lexeme ≠ .endOfInput)
      (haround : Around line t piece frames names) :
      Around line t ts (frames ++ [.source (sourceText line piece), .call name]) (names ++ [name])

/-- an error of the tokens `ts` behind others, which leave only plain parentheses open -/
inductive Refused (line : Text) (opened : List (Option String)) (before : Option String) (ts : List Token)
    (e : ParseError) : Prop where
  | offender {t : Token} {names : List String} (hfirst : firstOffender opened before ts = some (t, names))
      (hfault : t.lexeme.fault? = some e.fault) (hspan : e.span = some t.span)
      (haround : Around line t ts e.context names)
  | unterminated {name : String} {more outer : List (Option String)}
      (hopen : openAfter opened before ts = more ++ some name :: outer) (houter : callsOf outer = [])
      (hfault : e.fault = .unterminatedCall) (hspan : e.span = endSpan? ts) (hcontext : e.context = [.call name])

section

variable {line : Text} {opened : List (Option String)} {before : Option String} {t p : Token}
  {ts us rest inner after : List Token} {frames : List ParseFrame} {names : List String} {name : String}
  {e : ParseError}

theorem Around.mono (h : Around line t ts frames names) (hsub : ts.Sublist us) : Around line t us frames names := by
  cases h with
  | here ht => exact .here (hsub.subset ht)
  | call name hpiece hend haround => exact .call name (hpiece.trans hsub) hend haround

theorem endSpan?_cons (h : t.lexeme ≠ .endOfInput) : endSpan? (t :: rest) = endSpan? rest := by
  rw [endSpan?, List.find?_cons_of_neg (by simpa using h), endSpan?]

theorem endSpan?_splitArguments (depth : Nat) (ts : List Token) :
    (splitArguments depth ts).ending.endSpan? = endSpan? ts := by
  induction depth, ts using splitting_induct with
  | nil depth => rfl
  | stop depth t rest ht => simp [splitArguments_end depth ht, CallEnding.endSpan?, endSpan?, ht]
  | closing t rest ht => rw [splitArguments_closing ht, endSpan?_cons (by simp [ht])]; rfl
  | comma t rest ht ih => rw [splitArguments_comma ht, endSpan?_cons (by simp [ht])]; exact ih
  | inside depth t rest ht ih => rw [splitArguments_inside ht, CallBody.ending_push, endSpan?_cons ht.1, ih]

theorem endSpan?_callBody {pieces : List (List Token)} {ending : CallEnding} (ht : t.lexeme = .name name)
    (hp : p.lexeme = .operator .leftParen) (hbody : callBody inner = ⟨pieces, ending⟩) :
    endSpan? (t :: p :: inner) = ending.endSpan? := by
  rw [endSpan?_cons (by simp [ht]), endSpan?_cons (by simp [hp]), ← endSpan?_splitArguments 0, ending_of_callBody hbody]

theorem Around.ne_nil (h : Around line t ts frames names) : ts ≠ [] := by
  induction h with
  | here ht => exact List.ne_nil_of_mem ht
  | call name hpiece _ _ ih =>
    intro hempty
    subst hempty
    exact ih (List.sublist_nil.1 hpiece)

/-- A token that is admitted leaves the error to the tokens behind it. -/
theorem Refused.cons (hend : t.lexeme ≠ .endOfInput) (hadmits : Admits (opened.map Option.isSome) t.lexeme)
    (h : Refused line (openStep opened before t.lexeme) t.lexeme.name? rest e) :
    Refused line opened before (t :: rest) e := by
  cases h with
  | offender hfirst hfault hspan haround =>
    refine .offender ?_ hfault hspan (haround.mono (List.sublist_cons_self t rest))
    rwa [firstOffender_admitted hend hadmits]
  | unterminated hopen houter hfault hspan hcontext =>
    refine .unterminated ((openAfter_cons hend).trans hopen) houter hfault ?_ hcontext
    rwa [endSpan?_cons hend]

/-- Behind an argument that is complete, no call is open. -/
theorem Refused.exists_of_closes (h : Refused line [] none ts e) (hcloses : Closes [] none ts) :
    ∃ t names, firstOffender [] none ts = some (t, names) ∧ t.lexeme.fault? = some e.fault ∧ e.span = some t.span ∧
      Around line t ts e.context names := by
  cases h with
  | offender hfirst hfault hspan haround => exact ⟨_, _, hfirst, hfault, hspan, haround⟩
  | unterminated hopen =>
    rw [hcloses.closed] at hopen
    exact absurd hopen.symm (by simp)

theorem argumentsOffender_of_ok {pieces : List (List Token)} {arguments : List Expr}
    (h : readArguments line pieces = .ok arguments) : argumentsOffender [] none pieces = none := by
  have haccepts := ((readElements_ok_iff line).2 pieces).1 ⟨arguments, h⟩
  clear h
  induction pieces with
  | nil => rfl
  | cons piece others ih =>
    obtain ⟨hpiece, hothers⟩ := List.forall_mem_cons.1 haccepts
    have hnone : firstOffender [] none piece = none := firstOffender_of_accepts hpiece
    rw [argumentsOffender, hnone, ih hothers]
    rfl

/-- an error of arguments, all of them complete -/
structure ArgumentRefused (line : Text) (pieces : List (List Token)) (e : ParseError) (piece : List Token) (t : Token)
    (frames : List ParseFrame) (names : List String) : Prop where
  mem : piece ∈ pieces
  first : argumentsOffender [] none pieces = some (t, names)
  fault : t.lexeme.fault? = some e.fault
  span : e.span = some t.span
  context : e.context = frames ++ [.source (sourceText line piece)]
  around : Around line t piece frames names

/-- An error in an argument is one of the call, and comes before what stands behind it. -/
theorem ArgumentRefused.refused {pieces : List (List Token)} {piece : List Token} (hopened : callsOf opened = [])
    (ht : t.lexeme = .name name) (hp : p.lexeme = .operator .leftParen) {ending : CallEnding}
    (hbody : callBody inner = ⟨pieces, ending⟩) {u : Token} (h : ArgumentRefused line pieces e piece u frames names) :
    Refused line opened before (t :: p :: inner) (e.inside (.call name)) := by
  have hpieces : (callBody inner).arguments = pieces := by rw [hbody]
  have hfirst := h.first
  rw [← hpieces, argumentsOffender_callBody] at hfirst
  have hcloses := closes_of_callBody hbody piece h.mem
  have hsub : piece.Sublist (t :: p :: inner) := .cons _ (.cons _ (sublist_of_callBody hbody h.mem))
  have hcall : firstOffender ([] ++ some name :: opened) none inner = some (u, names ++ name :: callsOf opened) :=
    firstOffender_arguments List.length_nil hfirst
  rw [hopened, List.nil_append, ← firstOffender_call ht hp] at hcall
  refine .offender hcall h.fault h.span ?_
  have haround := Around.call name hsub hcloses.noEnd h.around
  rwa [ParseError.inside, h.context, List.append_assoc]

/-- Behind a call without errors, an error is one of the tokens behind it. -/
theorem Refused.closed {pieces : List (List Token)} {arguments : List Expr} (ht : t.lexeme = .name name)
    (hp : p.lexeme = .operator .leftParen) (hbody : callBody inner = ⟨pieces, .closed after⟩)
    (hpieces : readArguments line pieces = .ok arguments) (h : Refused line opened none after e) :
    Refused line opened before (t :: p :: inner) e := by
  have hending := ending_of_callBody hbody
  have hnone : argumentsOffender [] none (splitArguments 0 inner).arguments = none := by
    rw [← argumentsOffender_callBody, hbody]
    exact argumentsOffender_of_ok hpieces
  cases h with
  | offender hfirst hfault hspan haround =>
    refine .offender ?_ hfault hspan (haround.mono ?_)
    · have hbehind : firstOffender ([] ++ some name :: opened) none inner = firstOffender opened none after :=
        firstOffender_closed List.length_nil hending hnone
      rw [firstOffender_call ht hp]
      exact hbehind.trans hfirst
    · exact .cons _ (.cons _ (suffix_of_closed hending).sublist)
  | unterminated hopen houter hfault hspan hcontext =>
    refine .unterminated ((openAfter_callBody_closed opened before ht hp hbody).trans hopen) houter hfault ?_ hcontext
    rw [endSpan?_callBody ht hp hbody]
    exact hspan

theorem callsOf_openStep {l : Lexeme} (hopened : callsOf opened = []) (h : l = .operator .leftParen → before = none) :
    callsOf (openStep opened before l) = [] := by
  unfold openStep
  split
  · rw [h rfl]
    exact hopened
  · cases opened with
    | nil => rfl
    | cons mark opened =>
      cases mark with
      | none => exact hopened
      | some name => cases hopened
  · exact hopened

/-- Where no call is open, a token at fault is not admitted. -/
theorem not_admits_of_fault? {l : Lexeme} {f : ParseFault} (hopened : callsOf opened = []) (h : l.fault? = some f) :
    ¬ Admits (opened.map Option.isSome) l := by
  intro hadmits
  rcases Lexeme.isForeign_of_fault? h with hforeign | hcomma
  · rw [hadmits.1] at hforeign
    cases hforeign
  · have hhead := hadmits.2 hcomma
    cases opened with
    | nil => cases hhead
    | cons mark opened =>
      cases mark with
      | none => cases hhead
      | some name => cases hopened

/-- **Errors of sequences and of arguments.** A sequence is refused for its first offender or for a call that never
ends, and arguments are refused for their first offender. -/
theorem readElements_error (line : Text) :
    (∀ ts opened before e, callsOf opened = [] → (before.isSome → ∀ t ∈ ts.head?, t.lexeme ≠ .operator .leftParen) →
        readElements line ts = .error e → Refused line opened before ts e) ∧
      ∀ pieces e, (∀ piece ∈ pieces, Closes [] none piece) → readArguments line pieces = .error e →
        ∃ piece t frames names, ArgumentRefused line pieces e piece t frames names := by
  refine reading_induct ?nil ?stop ?newline ?element ?fault ?closed ?unclosed ?none ?argument
  case nil =>
    intro opened before e _ _ hread
    rw [readElements_nil] at hread
    cases hread
  case stop =>
    intro t rest ht opened before e _ _ hread
    rw [readElements_end ht] at hread
    cases hread
  case newline =>
    intro t rest ht ih opened before e hopened _ hread
    rw [readElements_newline ht] at hread
    refine .cons (by simp [ht]) (by simp [ht, Admits, Lexeme.isForeign]) (ih _ _ e ?_ ?_ hread)
    · rwa [ht]
    · simp [ht, Lexeme.name?]
  case element =>
    intro t rest x ht hcall ih opened before e hopened hbefore hread
    rw [readElements_element ht hcall, map_eq_error_iff] at hread
    have hforeign := Lexeme.isForeign_of_element? ht
    refine .cons (Lexeme.ne_endOfInput_of_element? ht) ⟨hforeign.1, fun hcomma => absurd hcomma hforeign.2⟩
      (ih _ _ e ?_ ?_ hread)
    · refine callsOf_openStep hopened fun hparen => ?_
      cases before with
      | none => rfl
      | some name => exact absurd hparen (hbefore rfl t rfl)
    · intro hname p hp hparen
      obtain ⟨inner, rfl⟩ := List.head?_eq_some_iff.1 hp
      obtain ⟨name, hname⟩ := Option.isSome_iff_exists.1 hname
      exact hcall ⟨name, p, inner, Lexeme.name?_eq_some_iff.1 hname, rfl, hparen⟩
  case fault =>
    intro t rest f ht opened before e hopened _ hread
    rw [readElements_fault ht] at hread
    cases hread
    have hfirst : firstOffender opened before (t :: rest) = some (t, callsOf opened) :=
      firstOffender_offends (Lexeme.ne_endOfInput_of_fault? ht) (not_admits_of_fault? hopened ht)
    rw [hopened] at hfirst
    exact .offender hfirst ht rfl (.here List.mem_cons_self)
  case closed =>
    intro t p inner name pieces after ht hp hbody ihPieces ihAfter opened before e hopened _ hread
    rcases (readElements_closed_eq_error_iff ht hp hbody).1 hread with ⟨e', herror, rfl⟩ | ⟨arguments, hpieces, hread⟩
    · obtain ⟨piece, u, frames, names, hrefused⟩ := ihPieces e' (closes_of_callBody hbody) herror
      exact hrefused.refused hopened ht hp hbody
    · exact .closed ht hp hbody hpieces (ihAfter opened none e hopened (by simp) hread)
  case unclosed =>
    intro t p inner name pieces span ht hp hbody ihPieces opened before e hopened _ hread
    rcases (readElements_unclosed_eq_error_iff ht hp hbody).1 hread with ⟨e', herror, rfl⟩ | ⟨-, rfl⟩
    · obtain ⟨piece, u, frames, names, hrefused⟩ := ihPieces e' (closes_of_callBody hbody) herror
      exact hrefused.refused hopened ht hp hbody
    · obtain ⟨more, hopen⟩ := openAfter_callBody_unclosed opened before ht hp hbody
      refine .unterminated hopen hopened rfl ?_ rfl
      rw [endSpan?_callBody ht hp hbody]
      rfl
  case none =>
    intro e _ hread
    rw [readArguments_nil] at hread
    cases hread
  case argument =>
    intro piece others ihPiece ihOthers e hcloses hread
    obtain ⟨hpiece, hothers⟩ := List.forall_mem_cons.1 hcloses
    rcases readArguments_cons_eq_error_iff.1 hread with ⟨e', herror, rfl⟩ | ⟨first, hfirst, hread⟩
    · obtain ⟨t, names, hfirst, hfault, hspan, haround⟩ :=
        (ihPiece [] none e' rfl (by simp) herror).exists_of_closes hpiece
      refine ⟨piece, t, e'.context, names, List.mem_cons_self, ?_, hfault, hspan, rfl, haround⟩
      rw [argumentsOffender, hfirst]
      rfl
    · obtain ⟨piece', t, frames, names, hrefused⟩ := ihOthers e hothers hread
      refine ⟨piece', t, frames, names, List.mem_cons_of_mem _ hrefused.mem, ?_, hrefused.fault, hrefused.span,
        hrefused.context, hrefused.around⟩
      have haccepts := ((readElements_ok_iff line).1 piece [] (by simp)).1 ⟨first, hfirst⟩
      have hnone : firstOffender [] none piece = none := firstOffender_of_accepts haccepts
      rw [argumentsOffender, hnone]
      exact hrefused.first

end

/-! ## Errors of a line -/

/-- what the context quotes of arguments, each given by its span and the name of its call -/
def argumentFrames (line : Text) (args : List (Span × String)) : List ParseFrame :=
  args.flatMap fun a => [.source (a.1.text line), .call a.2]

theorem length_argumentFrames (line : Text) (args : List (Span × String)) :
    (argumentFrames line args).length = 2 * args.length := by
  induction args with
  | nil => rfl
  | cons a args ih =>
    rw [argumentFrames, List.flatMap_cons, List.length_append, ← argumentFrames, ih, List.length_cons]
    exact Nat.add_comm ..

/-- What is quoted around a token are stretches of the line, each inside those that are quoted later. -/
theorem Around.exists_spans {line : Text} {t : Token} {ts : List Token} {frames : List ParseFrame} {names : List String}
    (h : Around line t ts frames names) (hts : InOrder ts) (ht : t.lexeme ≠ .endOfInput) {whole : Span}
    (hwhole : ∀ u ∈ ts, u.lexeme ≠ .endOfInput → u.span.Within whole) :
    ∃ args : List (Span × String), frames = argumentFrames line args ∧ args.map Prod.snd = names ∧
      (t.span :: args.map Prod.fst ++ [whole]).Pairwise Span.Within := by
  induction h generalizing whole with
  | here hmem =>
    refine ⟨[], rfl, rfl, ?_⟩
    simpa using hwhole t hmem ht
  | @call ts piece frames names name hpiece hend haround ih =>
    have hne := haround.ne_nil
    have horder := hts.sublist hpiece
    obtain ⟨args, rfl, rfl, hargs⟩ := ih horder fun u hu _ => horder.within_sourceSpan hu
    have hlast : (sourceSpan piece).Within whole :=
      sourceSpan_within hne fun u hu => hwhole u (hpiece.subset hu) (hend u hu)
    refine ⟨args ++ [(sourceSpan piece, name)], ?_, by simp, ?_⟩
    · simp [argumentFrames, sourceText_eq hne]
    · rw [List.map_append, ← List.cons_append, List.map_singleton]
      refine List.pairwise_append.2 ⟨hargs, List.pairwise_singleton _ _, fun a ha b hb => ?_⟩
      obtain rfl := List.mem_singleton.1 hb
      rcases List.mem_append.1 ha with ha | ha
      · exact ((List.pairwise_append.1 hargs).2.2 a ha _ List.mem_cons_self).trans hlast
      · rw [List.mem_singleton.1 ha]
        exact hlast

/-- an error at the first token that offends, inside the calls around it -/
structure AtOffender (line : Text) (e : ParseError) (i : Nat) (t : Token) : Prop where
  fault : t.lexeme.fault? = some e.fault
  offends : Offends (tokens line) i
  first : ∀ j < i, ¬ Offends (tokens line) j
  /-- The context quotes an argument of each call around the token, a stretch of the line that contains the token and
  all that is quoted before. -/
  context : ∃ args : List (Span × String), e.context = argumentFrames line args ++ [.source line] ∧
    args.map Prod.snd = enclosingCalls (tokens line) i ∧
    (t.span :: args.map Prod.fst ++ [(⟨0, line.length⟩ : Span)]).Pairwise Span.Within
  length : e.context.length = 2 * (enclosingCalls (tokens line) i).length + 1

/-- an error at the end of input, for a call that stands in no other and never ends -/
structure AtEnd (line : Text) (e : ParseError) (t : Token) : Prop where
  token : t.lexeme = .endOfInput
  call : ∃ j name, CallParen (tokens line) j ∧ nameBefore (tokens line) j = some name ∧
    (¬ ∃ k, Matches (tokens line) j k) ∧ enclosingCalls (tokens line) j = [] ∧ e.context = [.call name, .source line]

theorem AtOffender.fault_ne {line : Text} {e : ParseError} {i : Nat} {t : Token} (h : AtOffender line e i t) :
    e.fault ≠ .unterminatedCall := by
  intro hfault
  have ht := h.fault
  rw [hfault] at ht
  cases hl : t.lexeme <;> rw [hl] at ht <;> cases ht

theorem inOrder_tokens (line : Text) : InOrder (tokens line) := by
  obtain ⟨ts, hlexed, htokens⟩ := exists_lexed_tokens line
  rw [htokens]
  constructor
  · intro t ht
    rcases List.mem_append.1 ht with ht | ht
    · exact Nat.le_of_lt (hlexed.span_bounds ht).2.1
    · rw [List.mem_singleton.1 ht]
      exact Nat.le_succ _
  · refine List.pairwise_append.2 ⟨hlexed.ordered, List.pairwise_singleton _ _, fun t ht u hu => ?_⟩
    rw [List.mem_singleton.1 hu]
    have hstop := (hlexed.span_bounds ht).2.2
    rwa [Nat.zero_add] at hstop

/-- Every token but the end of input lies in the line. -/
theorem within_line {line : Text} {t : Token} (ht : t ∈ tokens line) (hend : t.lexeme ≠ .endOfInput) :
    t.span.Within ⟨0, line.length⟩ := by
  obtain ⟨ts, hlexed, htokens⟩ := exists_lexed_tokens line
  rw [htokens] at ht
  rcases List.mem_append.1 ht with ht | ht
  · simpa [Span.Within] using (hlexed.span_bounds ht).2.2
  · rw [List.mem_singleton.1 ht] at hend
    exact absurd rfl hend

theorem exists_end (line : Text) :
    ∃ (i : Nat) (t : Token), (tokens line)[i]? = some t ∧ t.lexeme = .endOfInput ∧
      endSpan? (tokens line) = some t.span := by
  obtain ⟨ts, span, htokens, hts⟩ := tokens_eq_append line
  refine ⟨ts.length, ⟨.endOfInput, span⟩, by simp [htokens], rfl, ?_⟩
  have hnone : ts.find? (fun t => t.lexeme = .endOfInput) = none := by
    simpa using hts
  simp [htokens, endSpan?, List.find?_append, hnone]

theorem parse_eq_error_iff {line : Text} {e : ParseError} :
    Expr.parse line = .error e ↔ ∃ e', readElements line (tokens line) = .error e' ∧ e'.inside (.source line) = e := by
  rw [Expr.parse, parsing_eq_error_iff]
  simp only [Expr.ofTokens, map_eq_error_iff]

/-- **Errors are placed.** The span of an error is that of a token: of the end of input, when an outermost call never
ends, and otherwise of the first token that offends. When all calls end, it is the latter. -/
theorem parse_error_place {line : Text} {e : ParseError} (h : Expr.parse line = .error e) :
    ∃ i t, (tokens line)[i]? = some t ∧ e.span = some t.span ∧ (e.fault = .unterminatedCall → AtEnd line e t) ∧
      (e.fault ≠ .unterminatedCall → AtOffender line e i t) ∧
      ((∀ j, CallParen (tokens line) j → ∃ k, Matches (tokens line) j k) → AtOffender line e i t) := by
  obtain ⟨e, hread, rfl⟩ := parse_eq_error_iff.1 h
  cases (readElements_error line).1 (tokens line) [] none e rfl (by simp) hread with
  | @offender t names hfirst hfault hspan haround =>
    obtain ⟨i, -, hat, hoffends, hleftmost, rfl⟩ := firstOffender_suffix (List.nil_append _).symm hfirst
    have hend := Lexeme.ne_endOfInput_of_fault? hfault
    obtain ⟨args, hframes, hnames, hspans⟩ := haround.exists_spans (inOrder_tokens line) hend fun u hu => within_line hu
    have hplace : AtOffender line (e.inside (.source line)) i t := by
      refine ⟨hfault, hoffends, fun j hj => hleftmost j (Nat.zero_le j) hj, ⟨args, ?_, hnames, hspans⟩, ?_⟩
      · rw [ParseError.inside, hframes]
      · rw [ParseError.inside, hframes, List.length_append, length_argumentFrames, ← hnames, List.length_map]
        rfl
    exact ⟨i, t, hat, hspan, fun hfault => absurd hfault hplace.fault_ne, fun _ => hplace, fun _ => hplace⟩
  | @unterminated name more outer hopen houter hfault hspan hcontext =>
    obtain ⟨i, t, hat, hend, hendSpan⟩ := exists_end line
    -- The call that never ends is on the stack of open parentheses, below all others.
    have hpass := openAfter_suffix (List.nil_append (tokens line)).symm fun _ _ _ => eq_nil_of_endOfInput
    rw [show openAfter [] none (tokens line) = _ from hpass] at hopen
    obtain ⟨xs, _, hstack, -, hbelow⟩ := List.map_eq_append_iff.1 hopen
    obtain ⟨j, ys, rfl, hname, rfl⟩ := List.map_eq_cons_iff.1 hbelow
    have hmem : j ∈ openParens (tokens line) := hstack ▸ List.mem_append_right xs List.mem_cons_self
    have hcall : CallParen (tokens line) j := by
      rw [callParen_iff hmem (List.append_nil _).symm, hname]
      rfl
    have hmatch : ¬ ∃ k, Matches (tokens line) j k := by
      rw [exists_matches_iff hcall.1, not_not]
      exact hmem
    refine ⟨i, t, hat, hspan.trans hendSpan, fun _ => ⟨hend, j, name, hcall, hname, hmatch, ?_, ?_⟩, ?_, ?_⟩
    · rw [enclosingCalls, openParens_take hstack, houter]
    · rw [ParseError.inside, hcontext]
      rfl
    · exact fun hother => absurd hfault hother
    · exact fun hterminated => absurd (hterminated j hcall) hmatch

/-- a line with an invalid character in a call in a call -/
def nestedLine : Text := ['f', '(', 'a', ',', 'g', '(', 'b', '$', ')', ')']

def nestedError : ParseError :=
  ⟨.invalid ['$'], some ⟨7, 8⟩,
    [.source ['b', '$'], .call "g", .source ['g', '(', 'b', '$', ')'], .call "f", .source nestedLine]⟩

theorem parse_error_place_nestedLine :
    Expr.parse nestedLine = .error nestedError ∧
      ∃ i t, (tokens nestedLine)[i]? = some t ∧ nestedError.span = some t.span ∧
        (nestedError.fault = .unterminatedCall → AtEnd nestedLine nestedError t) ∧
        (nestedError.fault ≠ .unterminatedCall → AtOffender nestedLine nestedError i t) ∧
        ((∀ j, CallParen (tokens nestedLine) j → ∃ k, Matches (tokens nestedLine) j k) →
          AtOffender nestedLine nestedError i t) := by
  have htokens : tokens nestedLine =
      [⟨.name "f", ⟨0, 1⟩⟩, ⟨.operator .leftParen, ⟨1, 2⟩⟩, ⟨.name "a", ⟨2, 3⟩⟩, ⟨.punctuation .comma, ⟨3, 4⟩⟩,
        ⟨.name "g", ⟨4, 5⟩⟩, ⟨.operator .leftParen, ⟨5, 6⟩⟩, ⟨.name "b", ⟨6, 7⟩⟩, ⟨.invalid ['$'], ⟨7, 8⟩⟩,
        ⟨.operator .rightParen, ⟨8, 9⟩⟩, ⟨.operator .rightParen, ⟨9, 10⟩⟩, ⟨.endOfInput, ⟨10, 11⟩⟩] := by
    decide +kernel
  have hparse : Expr.parse nestedLine = .error nestedError := by
    rw [Expr.parse, htokens]
    with_unfolding_all rfl
  exact ⟨hparse, parse_error_place hparse⟩

end Calculator
