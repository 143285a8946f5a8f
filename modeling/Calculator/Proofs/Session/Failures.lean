/-
Failed lines leave no trace in a session.

A line does one of three things to a session (`Stepped`): an empty one does nothing, one that fails sets the mark of
failure, and one with a value is kept as the variable `ans`. Neither of the first two changes what later lines can see,
so the lines that have a value have it without the others as well, and what is printed of them is the same.

- `Session.run_valued`: a run on the lines that had a value has just the reports of these lines;
- `Session.lookup?_run`: `ans` is the last value before a line;
- `Session.mem_run_iff`: the reports of a run are those on its lines, each in the environment behind the lines before;
- `Session.failed_run`: a run fails exactly when a report has no value;
- `failures_leave_no_trace`: a whole command, and the same on the lines that had a value.
-/
import Calculator.CommandLine.Command
import Calculator.Proofs.Expr.OneLine

namespace Calculator

/-! ## Reports -/

theorem report_line (env : Environment) (line : Text) : (report env line).line = line := by
  unfold report
  split
  · rfl
  · simp only
    split <;> rfl

/-- the reports on lines that have a value -/
def valued (reports : List Report) : List Report := reports.filter fun r => r.value?.isSome

section

variable {r : Report} {rs : List Report}

theorem valued_cons_none (h : r.value? = none) : valued (r :: rs) = valued rs := by simp [valued, h]

theorem valued_cons_some {value : Binary64} (h : r.value? = some value) : valued (r :: rs) = r :: valued rs := by
  simp [valued, h]

/-- Nothing is printed as the result of a line without a value. -/
theorem Report.resultLines_eq_nil (style : Style) (h : r.value? = none) : r.resultLines style = [] := by
  unfold value? at h
  unfold resultLines
  split
  · rename_i hverdict
    rw [hverdict] at h
    cases h
  · rfl

/-- The result of a line with a value is printed on one line. -/
theorem exists_resultLine (style : Style) {env : Environment} {line : Text} {value : Binary64}
    (h : (report env line).value? = some value) :
    ∃ out, (report env line).resultLines style = [out] ∧ '\n' ∉ out.toList := by
  unfold report at h ⊢
  split at h
  · cases h
  · rename_i expr hparse
    simp only at h ⊢
    split at h
    · cases h
    · rename_i result _
      refine ⟨_, rfl, ?_⟩
      have hresult := Binary64.newline_notMem_render style.radix result
      have hexpr := Expr.newline_notMem_text_of_parse hparse
      split
      · rwa [String.toList_ofList]
      · simp [hresult, hexpr, toString]

end

/-! ## One line -/

/-- what a line does to a session, and the report on it -/
inductive Stepped (s : Session) (line : Text) : Session × Option Report → Prop where
  | empty (h : isEmptyLine line) : Stepped s line (s, none)
  | failed (h : isEmptyLine line = false) (hvalue : (report s.env line).value? = none) :
      Stepped s line ({ s with failed := true }, some (report s.env line))
  | value (h : isEmptyLine line = false) {value : Binary64} (hvalue : (report s.env line).value? = some value) :
      Stepped s line ({ s with env := s.env.assign answerName value }, some (report s.env line))

theorem stepped (s : Session) (line : Text) : Stepped s line (s.step line) := by
  unfold Session.step
  split
  · rename_i hempty
    exact .empty hempty
  · rename_i hempty
    rw [Bool.not_eq_true] at hempty
    simp only [Session.after]
    split
    · rename_i value hvalue
      exact .value hempty hvalue
    · rename_i hvalue
      exact .failed hempty hvalue

namespace Session

variable (s : Session) (lines : List Text)

theorem step_of_value {line : Text} (h : isEmptyLine line = false) {value : Binary64}
    (hvalue : (report s.env line).value? = some value) :
    s.step line = ({ s with env := s.env.assign answerName value }, some (report s.env line)) := by
  simp only [step, h, Bool.false_eq_true, if_false, after, hvalue]

/-! ## Runs -/

theorem run_cons (line : Text) :
    s.run (line :: lines) =
      (((s.step line).1.run lines).1, (s.step line).2.toList ++ ((s.step line).1.run lines).2) := rfl

/-- The lines that are reported on are lines of the run, in their order. -/
theorem sublist_run : ((s.run lines).2.map (·.line)).Sublist lines := by
  induction lines generalizing s with
  | nil => exact List.Sublist.refl []
  | cons line lines ih =>
    rw [run_cons, List.map_append]
    generalize hstep : s.step line = result
    cases hstep ▸ stepped s line with
    | empty h => exact (ih s).cons line
    | failed h hvalue =>
      rw [Option.toList_some, List.map_singleton, report_line]
      exact (ih _).cons_cons line
    | value h hvalue =>
      rw [Option.toList_some, List.map_singleton, report_line]
      exact (ih _).cons_cons line

/-- **The lines with a value do not need the others.** On them alone, a session that sees the same reports the same. -/
theorem run_valued {s' : Session} (henv : s'.env = s.env) :
    (s'.run ((valued (s.run lines).2).map (·.line))).2 = valued (s.run lines).2 := by
  induction lines generalizing s s' with
  | nil => rfl
  | cons line lines ih =>
    rw [run_cons]
    generalize hstep : s.step line = result
    cases hstep ▸ stepped s line with
    | empty h => exact ih s henv
    | failed h hvalue =>
      rw [Option.toList_some, List.singleton_append, valued_cons_none hvalue]
      exact ih _ henv
    | @value h v hvalue =>
      have hstep' : s'.step line = ({ s' with env := s.env.assign answerName v }, some (report s.env line)) := by
        rw [s'.step_of_value h (henv ▸ hvalue), henv]
      rw [Option.toList_some, List.singleton_append, valued_cons_some hvalue, List.map_cons, report_line, run_cons,
        hstep']
      exact congrArg (report s.env line :: ·) (ih { s with env := s.env.assign answerName v } rfl)

theorem lookup?_assign_answer (env : Environment) (value : Binary64) :
    (env.assign answerName value).lookup? answerName = some value := by
  have hconstant : constants.lookup answerName = none := by decide +kernel
  rw [Environment.lookup?, hconstant, Environment.assign, Variables.lookup_assign, if_pos rfl]
  rfl

/-- Behind some lines, `ans` is the last value that they had, and what it was before if there is none. -/
theorem lookup?_run :
    (s.run lines).1.env.lookup? answerName =
      ((s.run lines).2.filterMap Report.value?).getLast?.or (s.env.lookup? answerName) := by
  induction lines generalizing s with
  | nil => rfl
  | cons line lines ih =>
    rw [run_cons]
    generalize hstep : s.step line = result
    cases hstep ▸ stepped s line with
    | empty h => exact ih s
    | failed h hvalue =>
      rw [Option.toList_some, List.singleton_append, List.filterMap_cons_none hvalue]
      exact ih _
    | @value h v hvalue =>
      rw [Option.toList_some, List.singleton_append, List.filterMap_cons_some hvalue, List.getLast?_cons, ih,
        lookup?_assign_answer]
      cases (List.filterMap Report.value? (run _ lines).2).getLast? <;> rfl

theorem failed_run : (s.run lines).1.failed = true ↔ s.failed = true ∨ ∃ r ∈ (s.run lines).2, r.value? = none := by
  induction lines generalizing s with
  | nil => simp [run]
  | cons line lines ih =>
    rw [run_cons]
    generalize hstep : s.step line = result
    cases hstep ▸ stepped s line with
    | empty h => exact ih s
    | failed h hvalue => simp [ih, hvalue]
    | value h hvalue => simp [ih, hvalue]

/-- The report on a line stands behind those on the lines before it. -/
theorem run_split (before after : List Text) {line : Text} (h : isEmptyLine line = false) :
    ∃ more, (s.run (before ++ line :: after)).2 = (s.run before).2 ++ report (s.run before).1.env line :: more := by
  rw [run_append, run_cons]
  generalize hstep : (s.run before).1.step line = result
  cases hstep ▸ stepped (s.run before).1 line with
  | empty h' => exact absurd h' (by simp [h])
  | failed _ _ => exact ⟨_, rfl⟩
  | value _ _ => exact ⟨_, rfl⟩

/-- **The reports of a run.** Each is the report on a line that is not empty, in the environment behind those before. -/
theorem mem_run_iff {r : Report} :
    r ∈ (s.run lines).2 ↔ ∃ before line after, lines = before ++ line :: after ∧ isEmptyLine line = false ∧
      r = report (s.run before).1.env line := by
  constructor
  · intro hr
    induction lines generalizing s with
    | nil => cases hr
    | cons line lines ih =>
      rw [run_cons] at hr
      rcases List.mem_append.1 hr with hhead | htail
      · refine ⟨[], line, lines, rfl, ?_⟩
        generalize hstep : s.step line = result at hhead
        cases hstep ▸ stepped s line with
        | empty h => cases hhead
        | failed h hvalue => exact ⟨h, List.mem_singleton.1 hhead⟩
        | value h hvalue => exact ⟨h, List.mem_singleton.1 hhead⟩
      · obtain ⟨before, other, after, rfl, hother, rfl⟩ := ih _ htail
        exact ⟨line :: before, other, after, rfl, hother, rfl⟩
  · intro h
    obtain ⟨before, line, after, rfl, hline, rfl⟩ := h
    obtain ⟨more, hmore⟩ := s.run_split before after hline
    rw [hmore]
    exact List.mem_append_right _ List.mem_cons_self

end Session

/-- what is printed of a run: one line for each report with a value -/
theorem forall₂_resultLines (style : Style) {rs : List Report} (h : ∀ r ∈ rs, ∃ env line, r = report env line) :
    List.Forall₂ (fun r out => r.resultLines style = [out] ∧ '\n' ∉ out.toList) (valued rs)
      (rs.flatMap (Report.resultLines style)) := by
  induction rs with
  | nil => exact .nil
  | cons r rs ih =>
    obtain ⟨⟨env, line, rfl⟩, hrs⟩ := List.forall_mem_cons.1 h
    rw [List.flatMap_cons]
    cases hvalue : (report env line).value? with
    | none =>
      rw [valued_cons_none hvalue, Report.resultLines_eq_nil style hvalue]
      exact ih hrs
    | some value =>
      obtain ⟨out, hout, hnewline⟩ := exists_resultLine style hvalue
      rw [valued_cons_some hvalue, hout]
      exact .cons ⟨hout, hnewline⟩ (ih hrs)

theorem flatMap_resultLines_valued (style : Style) (rs : List Report) :
    (valued rs).flatMap (Report.resultLines style) = rs.flatMap (Report.resultLines style) := by
  induction rs with
  | nil => rfl
  | cons r rs ih =>
    cases hvalue : r.value? with
    | none => rw [valued_cons_none hvalue, List.flatMap_cons, Report.resultLines_eq_nil style hvalue, ih]; rfl
    | some value => rw [valued_cons_some hvalue, List.flatMap_cons, List.flatMap_cons, ih]

namespace CommandLine

/-! ## Commands -/

/-- Lines of any kind can be given, each one with a continuation that is empty. -/
theorem exists_joined (lines : List Text) : ∃ input : Input, input.interrupted = false ∧ input.joined = lines := by
  have hcontinues : ∀ line : Text, withoutEnding (line ++ ['\\']) = line ++ ['\\'] := by
    intro line
    simp [withoutEnding, dropEndWhile]
  have hjoin : joinFrom [] (lines.flatMap fun line => [line ++ ['\\'], []]) = ⟨lines, []⟩ := by
    induction lines with
    | nil => rfl
    | cons line lines ih =>
      have hline : continues (line ++ ['\\']) = true := by simp [continues, hcontinues]
      have hpiece : piece (line ++ ['\\']) = line := by rw [piece, if_pos hline, hcontinues, List.dropLast_concat]
      have hempty : continues [] = false := rfl
      rw [List.flatMap_cons, List.cons_append, List.cons_append, List.nil_append, joinFrom, if_pos hline, hpiece,
        joinFrom, if_neg (by simp [hempty]), ih]
      simp [piece, hempty, withoutEnding, dropEndWhile]
  refine ⟨⟨lines.flatMap fun line => [line ++ ['\\'], []], false⟩, rfl, ?_⟩
  simp only [Input.joined, hjoin]
  rfl

/-- the environment that a line behind others is evaluated in -/
def environmentAfter (lines : List Text) : Environment := (Session.run {} lines).1.env

/-- the lines of an input that have a value, in the order in which they are evaluated -/
def succeeding (input : Input) : List Text := (valued (Session.run {} input.joined).2).map (·.line)

/-- How a command treats lines that fail. -/
structure FailuresLeaveNoTrace (s : Settings) (input : Input) : Prop where
  sublist : (succeeding input).Sublist input.joined
  /-- The lines that have a value can be given alone, and then the same is printed. -/
  alone : (∃ again : Input, again.interrupted = false ∧ again.joined = succeeding input) ∧
    ∀ again : Input, again.interrupted = false → again.joined = succeeding input →
      (perform s again).stdout = (perform s input).stdout
  /-- one line of output for each line with a value -/
  printed : List.Forall₂ (fun r out => r.resultLines s.style = [out] ∧ '\n' ∉ out.toList)
    (valued (Session.run {} input.joined).2) (perform s input).stdout
  /-- A line is evaluated where `ans` is the last value before it, and no variable if there is none. -/
  answer : ∀ before line after, input.joined = before ++ line :: after → isEmptyLine line = false →
    (∃ more, (Session.run {} input.joined).2 =
      (Session.run {} before).2 ++ report (environmentAfter before) line :: more) ∧
    (environmentAfter before).lookup? answerName = ((Session.run {} before).2.filterMap Report.value?).getLast?
  status : (perform s input).failed = true ↔ ∃ before line after, input.joined = before ++ line :: after ∧
    isEmptyLine line = false ∧ (report (environmentAfter before) line).value? = none

theorem perform_stdout {s : Settings} (hs : s.action = .evaluate) (input : Input) :
    (perform s input).stdout = (Session.run {} input.joined).2.flatMap (Report.resultLines s.style) := by
  simp only [perform, Settings.heading, Settings.advance, hs, List.nil_append]

theorem perform_failed {s : Settings} (hs : s.action = .evaluate) (hfile : s.file ≠ some .unnamed) {input : Input}
    (hinput : input.interrupted = false) : (perform s input).failed = (Session.run {} input.joined).1.failed := by
  simp [perform, Settings.advance, hs, hfile, hinput]

/-- **Failed lines leave no trace.** A command that evaluates lines prints one line for each that has a value, the same
as if the others had not been there. Each line sees as `ans` the last value before it, and the command fails exactly
when some line that is not empty has no value. -/
theorem failures_leave_no_trace {s : Settings} (hs : s.action = .evaluate) (hfile : s.file ≠ some .unnamed)
    {input : Input} (hinput : input.interrupted = false) : FailuresLeaveNoTrace s input where
  sublist := (List.filter_sublist.map _).trans (Session.sublist_run {} input.joined)
  alone := by
    refine ⟨exists_joined _, fun again _ hagain => ?_⟩
    rw [perform_stdout hs, perform_stdout hs, hagain, succeeding, Session.run_valued {} _ rfl,
      flatMap_resultLines_valued]
  printed := by
    rw [perform_stdout hs]
    refine forall₂_resultLines s.style fun r hr => ?_
    obtain ⟨before, line, after, -, -, rfl⟩ := (Session.mem_run_iff {} _).1 hr
    exact ⟨_, line, rfl⟩
  answer := by
    intro before line after hlines hline
    have hanswer := Session.lookup?_run {} before
    have hnone : (Environment.lookup? {} answerName) = none := by decide +kernel
    refine ⟨hlines ▸ Session.run_split {} before after hline, ?_⟩
    rw [environmentAfter, hanswer, hnone, Option.or_none]
  status := by
    rw [perform_failed hs hfile hinput, Session.failed_run]
    constructor
    · intro h
      rcases h with hstart | ⟨r, hr, hvalue⟩
      · cases hstart
      · obtain ⟨before, line, after, hlines, hline, rfl⟩ := (Session.mem_run_iff {} _).1 hr
        exact ⟨before, line, after, hlines, hline, hvalue⟩
    · intro h
      obtain ⟨before, line, after, hlines, hline, hvalue⟩ := h
      exact .inr ⟨_, (Session.mem_run_iff {} _).2 ⟨before, line, after, hlines, hline, rfl⟩, hvalue⟩

/-- a value, a line that cannot be parsed, an empty line, a use of the value, one of a function that is not there, and
another use -/
def mixedInput : Input :=
  ⟨["1 + 2".toList, "$".toList, " ".toList, "ans * 2".toList, "f(ans)".toList, "-ans".toList, "ans".toList], false⟩

/-- The value of a line is used behind a line that fails. -/
theorem failures_leave_no_trace_mixedInput :
    ({} : Settings).action = .evaluate ∧ ({} : Settings).file ≠ some .unnamed ∧ mixedInput.interrupted = false ∧
      succeeding mixedInput = ["1 + 2".toList, "ans * 2".toList, "ans".toList] ∧
      FailuresLeaveNoTrace {} mixedInput :=
  ⟨rfl, by decide, rfl, by decide +kernel, failures_leave_no_trace rfl (by decide) rfl⟩

end CommandLine

end Calculator
