/-
What is underlined below a line.

The upper of the two rows is cut out of the line and the lower one is put together from offsets, so that they agree is a
fact about both (`Underlines`): the caret at a column stands below the character that has its offset in the span. Behind
the last character there is one more column, which is that of the end of input.

- `Span.underlines`: the two rows of a span in a line, or right behind it;
- `exists_blamed`: an error points at the token that the line is refused for;
- `highlight_underlines`: so do the rows that are printed for a line that fails.
-/
import Calculator.Proofs.Expr.Blame
import Calculator.Proofs.Session.Failures

namespace Calculator

/-! ## Two rows -/

/-- `Underlines line s first upper lower`: the upper row is the stretch of the line around the span from the offset
`first` on, and the lower row has carets below the characters of the span and spaces in front of them. -/
structure Underlines (line : Text) (s : Span) (first : Nat) (upper lower : Text) : Prop where
  stretch : ∃ before after, line = before ++ (upper ++ after) ∧ before.length = first
  /-- 20 characters before the span are shown, or as many as there are. -/
  left : first + 20 = s.start ∨ first = 0 ∧ s.start ≤ 20
  /-- So are 20 characters behind it. -/
  right : first + upper.length = s.stop + 20 ∨ first + upper.length = line.length ∧ line.length ≤ s.stop + 20
  /-- The span is shown whole, or it is that of the end of input, which would come next. -/
  shown : s.stop ≤ first + upper.length ∨ s = ⟨line.length, line.length + 1⟩ ∧ first + upper.length = line.length
  caret : ∀ column, lower[column]? = some '^' ↔ s.start ≤ first + column ∧ first + column < s.stop
  space : ∀ column, lower[column]? = some ' ' ↔ first + column < s.start
  /-- Nothing stands behind the carets. -/
  width : first + lower.length = s.stop
  oneRow : '\n' ∉ upper ∧ '\n' ∉ lower

theorem dropEndWhile_eq_self {p : Char → Bool} {text : Text} (h : ∀ c ∈ text, p c = false) :
    dropEndWhile p text = text := by
  have hreverse : text.reverse.dropWhile p = text.reverse := by
    rw [List.dropWhile_eq_self_iff]
    exact fun hlength => Bool.eq_false_iff.1 (h _ (List.mem_reverse.1 (List.getElem_mem hlength)))
  rw [dropEndWhile, hreverse, List.reverse_reverse]

namespace Span

variable {line : Text} {s : Span}

/-- In a line without newlines, the excerpt is all of what is around the span. -/
theorem excerpt_eq (hline : '\n' ∉ line) :
    s.excerpt line = (line.drop s.excerptStart).take (s.stop + context - s.excerptStart) := by
  refine dropEndWhile_eq_self fun c hc => ?_
  rw [beq_eq_false_iff_ne]
  rintro rfl
  exact hline (List.mem_of_mem_drop (List.mem_of_mem_take hc))

/-- What stands at a column of the lower row. -/
theorem getElem?_carets_eq_some_iff (hspan : s.start ≤ s.stop) {column : Nat} {c : Char} :
    s.carets[column]? = some c ↔ s.excerptStart + column < s.start ∧ c = ' ' ∨
      (s.start ≤ s.excerptStart + column ∧ s.excerptStart + column < s.stop) ∧ c = '^' := by
  have hstart : s.excerptStart ≤ s.start := Nat.sub_le s.start context
  rw [carets, List.getElem?_append, List.length_replicate, List.getElem?_replicate, List.getElem?_replicate, length]
  by_cases hleft : s.excerptStart + column < s.start
  · have hcolumn : column < s.start - s.excerptStart := by omega
    rw [if_pos hcolumn, if_pos hcolumn, Option.some.injEq]
    constructor
    · exact fun hc => .inl ⟨hleft, hc.symm⟩
    · rintro (⟨-, hc⟩ | ⟨⟨hright, -⟩, -⟩)
      · exact hc.symm
      · exact absurd hleft (Nat.not_lt.2 hright)
  · have hcolumn : ¬ column < s.start - s.excerptStart := by omega
    have hright : column - (s.start - s.excerptStart) < s.stop - s.start ↔ s.excerptStart + column < s.stop := by omega
    rw [if_neg hcolumn, Option.ite_none_right_eq_some, hright, Option.some.injEq]
    constructor
    · rintro ⟨hstop, hc⟩
      exact .inr ⟨⟨Nat.not_lt.1 hleft, hstop⟩, hc.symm⟩
    · rintro (⟨hstop, -⟩ | ⟨⟨-, hstop⟩, hc⟩)
      · exact absurd hstop hleft
      · exact ⟨hstop, hc.symm⟩

theorem newline_notMem_carets (s : Span) : '\n' ∉ s.carets := by
  intro hmem
  rcases List.mem_append.1 hmem with hspace | hcaret
  · cases List.eq_of_mem_replicate hspace
  · cases List.eq_of_mem_replicate hcaret

/-- **The caret row agrees with the excerpt.** -/
theorem underlines (hline : '\n' ∉ line) (hspan : s.start ≤ s.stop)
    (hplace : s.stop ≤ line.length ∨ s = ⟨line.length, line.length + 1⟩) :
    Underlines line s s.excerptStart (s.excerpt line) s.carets := by
  have hfirst : s.excerptStart = s.start - 20 := rfl
  have hstart : s.start ≤ line.length := by
    rcases hplace with hstop | rfl
    · exact Nat.le_trans hspan hstop
    · exact Nat.le_refl _
  have hlength : (s.excerpt line).length = min (s.stop + 20 - s.excerptStart) (line.length - s.excerptStart) := by
    rw [excerpt_eq hline, List.length_take, List.length_drop, context]
  refine ⟨⟨line.take s.excerptStart, (line.drop s.excerptStart).drop (s.stop + context - s.excerptStart), ?_, ?_⟩,
    by omega, by omega, ?_, fun column => ?_, fun column => ?_, ?_, ?_, newline_notMem_carets s⟩
  · rw [excerpt_eq hline, List.take_append_drop, List.take_append_drop]
  · rw [List.length_take]
    omega
  · refine hplace.imp (fun hstop => ?_) fun hend => ⟨hend, ?_⟩
    · omega
    · have hstop : s.stop = line.length + 1 := by rw [hend]
      omega
  · rw [getElem?_carets_eq_some_iff hspan]
    simp
  · rw [getElem?_carets_eq_some_iff hspan]
    simp
  · rw [carets, List.length_append, List.length_replicate, List.length_replicate, length]
    omega
  · rw [excerpt_eq hline]
    exact fun hmem => hline (List.mem_of_mem_drop (List.mem_of_mem_take hmem))

end Span

/-- A token stands in its line, or it is the end of input right behind it. -/
theorem span_of_mem_tokens {line : Text} {t : Token} (ht : t ∈ tokens line) :
    t.span.start ≤ t.span.stop ∧ (t.span.stop ≤ line.length ∨ t.span = ⟨line.length, line.length + 1⟩) := by
  obtain ⟨ts, hlexed, htokens⟩ := exists_lexed_tokens line
  rw [htokens] at ht
  rcases List.mem_append.1 ht with ht | ht
  · obtain ⟨-, hlt, hstop⟩ := hlexed.span_bounds ht
    exact ⟨Nat.le_of_lt hlt, .inl (by rwa [Nat.zero_add] at hstop)⟩
  · rw [List.mem_singleton.1 ht]
    exact ⟨Nat.le_succ _, .inr rfl⟩

/-! ## Errors -/

/-- the token that a line is refused for: the first that offends, or the end of input, if a call never ends -/
inductive Blamed (line : Text) (fault : ParseFault) (t : Token) : Prop where
  | offender (i : Nat) (hat : (tokens line)[i]? = some t) (hoffends : Offends (tokens line) i)
      (hfirst : ∀ j < i, ¬ Offends (tokens line) j) (hfault : t.lexeme.fault? = some fault)
  | unterminated (ht : t ∈ tokens line) (hend : t.lexeme = .endOfInput) (hfault : fault = .unterminatedCall)

theorem Blamed.mem {line : Text} {fault : ParseFault} {t : Token} (h : Blamed line fault t) : t ∈ tokens line := by
  cases h with
  | offender i hat => exact List.mem_of_getElem? hat
  | unterminated ht => exact ht

/-- **An error points at the token that is to blame.** -/
theorem exists_blamed {line : Text} {e : ParseError} (h : Expr.parse line = .error e) :
    ∃ t, Blamed line e.fault t ∧ e.span = some t.span := by
  obtain ⟨e, hread, rfl⟩ := parse_eq_error_iff.1 h
  cases (readElements_error line).1 (tokens line) [] none e rfl (by simp) hread with
  | @offender t names hfirst hfault hspan haround =>
    obtain ⟨i, -, hat, hoffends, hleftmost, -⟩ := firstOffender_suffix (List.nil_append _).symm hfirst
    exact ⟨t, .offender i hat hoffends (fun j hj => hleftmost j (Nat.zero_le j) hj) hfault, hspan⟩
  | unterminated _ _ hfault hspan =>
    obtain ⟨i, t, hat, hend, hendSpan⟩ := exists_end line
    exact ⟨t, .unterminated (List.mem_of_getElem? hat) hend hfault, hspan.trans hendSpan⟩

/-! ## What is printed -/

/-- A report without a value that points at a span is one of a parse error. -/
theorem parse_of_failure? {env : Environment} {line : Text} {failure : Failure} {span : Span}
    (h : (report env line).failure? = some failure) (hspan : failure.span = some span) :
    ∃ e, Expr.parse line = .error e ∧ failure = .parse e := by
  unfold report at h
  split at h
  · rename_i e he
    exact ⟨e, he, (Option.some.inj h).symm⟩
  · simp only at h
    split at h
    · cases h
      cases hspan
    · cases h

namespace CommandLine

theorem perform_stderr {s : Settings} (hs : s.action = .evaluate) (input : Input) :
    (perform s input).stderr = (Session.run {} input.joined).2.flatMap (Report.diagnosticLines s.style) := by
  simp only [perform, Settings.advance, hs]

/-- What is printed of a failure is printed when its line is evaluated. -/
theorem failureLines_infix {s : Settings} (hs : s.action = .evaluate) {input : Input} {before after : List Text}
    {line : Text} (hinput : input.joined = before ++ line :: after) (hline : isEmptyLine line = false) :
    (report (environmentAfter before) line).failureLines <:+: (perform s input).stderr := by
  obtain ⟨more, hmore⟩ := Session.run_split {} before after hline
  rw [perform_stderr hs, hinput, hmore, List.flatMap_append, List.flatMap_cons, Report.diagnosticLines,
    List.append_assoc, ← List.append_assoc]
  exact (List.prefix_append _ _).isInfix.trans (List.suffix_append _ _).isInfix

end CommandLine

open CommandLine in
/-- **What is underlined.** In a line without newlines, the two rows of every token underline just the token. For a line
that fails with a token to blame, these two rows of that token are printed, and behind them what is wrong. -/
theorem highlight_underlines {line : Text} (hline : '\n' ∉ line) :
    (∀ t ∈ tokens line, ∃ first upper lower, t.span.highlight line = upper ++ '\n' :: lower ∧
        Underlines line t.span first upper lower) ∧
      ∀ (s : Settings) (input : Input) (before after : List Text) (failure : Failure) (span : Span),
        s.action = .evaluate → input.joined = before ++ line :: after → isEmptyLine line = false →
        (report (environmentAfter before) line).failure? = some failure → failure.span = some span →
        ∃ e t first upper lower, failure = .parse e ∧ Blamed line e.fault t ∧ span = t.span ∧
          Underlines line t.span first upper lower ∧
          [String.ofList (upper ++ '\n' :: lower), failure.text] <:+: (perform s input).stderr := by
  have hrows : ∀ t ∈ tokens line, Underlines line t.span t.span.excerptStart (t.span.excerpt line) t.span.carets := by
    intro t ht
    obtain ⟨hspan, hplace⟩ := span_of_mem_tokens ht
    exact t.span.underlines hline hspan hplace
  refine ⟨fun t ht => ⟨_, _, _, rfl, hrows t ht⟩, ?_⟩
  intro s input before after failure span hs hinput hempty hfailure hspan
  obtain ⟨e, hparse, rfl⟩ := parse_of_failure? hfailure hspan
  obtain ⟨t, hblamed, htoken⟩ := exists_blamed hparse
  obtain rfl : span = t.span := Option.some.inj (hspan.symm.trans htoken)
  refine ⟨e, t, _, _, _, rfl, hblamed, rfl, hrows t hblamed.mem, ?_⟩
  have hlines : (report (environmentAfter before) line).failureLines =
      [String.ofList (t.span.highlight line), (Failure.parse e).text] := by
    rw [Report.failureLines, hfailure]
    simp only [hspan, report_line]
    rfl
  rw [← Span.highlight, ← hlines]
  exact failureLines_infix hs hinput hempty

/-- a call that never ends -/
def openLine : Text := "max(1, 2, 3, 4, 5, 6, 7, 8".toList

def openError : ParseError := ⟨.unterminatedCall, some ⟨26, 27⟩, [.call "max", .source openLine]⟩

open CommandLine in
/-- The caret stands behind the last character, and the beginning of the line is not shown. -/
theorem highlight_underlines_openLine :
    '\n' ∉ openLine ∧ Input.joined ⟨["1".toList, openLine], false⟩ = ["1".toList] ++ openLine :: [] ∧
      isEmptyLine openLine = false ∧
      (report (environmentAfter ["1".toList]) openLine).failure? = some (.parse openError) ∧
      (⟨26, 27⟩ : Span).highlight openLine = " 2, 3, 4, 5, 6, 7, 8\n                    ^".toList ∧
      ∃ e t first upper lower, Failure.parse openError = .parse e ∧ Blamed openLine e.fault t ∧ ⟨26, 27⟩ = t.span ∧
        Underlines openLine t.span first upper lower ∧
        [String.ofList (upper ++ '\n' :: lower), (Failure.parse openError).text] <:+:
          (perform {} ⟨["1".toList, openLine], false⟩).stderr := by
  have hline : '\n' ∉ openLine := by decide
  have hinput : Input.joined ⟨["1".toList, openLine], false⟩ = ["1".toList] ++ openLine :: [] := by decide
  have hempty : isEmptyLine openLine = false := by decide
  have hparse : Expr.parse openLine = .error openError := by
    with_unfolding_all rfl
  have hfailure : (report (environmentAfter ["1".toList]) openLine).failure? = some (.parse openError) := by
    rw [report, hparse]
    rfl
  refine ⟨hline, hinput, hempty, hfailure, by decide, ?_⟩
  exact (highlight_underlines hline).2 {} _ _ _ _ _ rfl hinput hempty hfailure rfl

end Calculator
