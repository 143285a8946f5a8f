/-
Lines of input count the same wherever they come from.

Expressions among the arguments are lines as they are, while the lines of a file and of the standard input keep their
newlines. Joining looks at lines without their ends (`joinFrom_congr`), so it does not see the difference. Flags that
take no value leave the source of the lines open: they are gone through in front of the expressions, of the name of a
file, or of nothing at all, with one and the same outcome (`gather_switches`).

- `Holds.splitLines`: a text that holds lines is cut into these lines, their ends aside;
- `requests_agree`: what a command line asks for behind flags without a value is the same but for the source;
- `sources_agree`: the command does the same with expressions, with a file and with the standard input.
-/
import Calculator.CommandLine.Command
import Calculator.Proofs.Results
import Mathlib.Data.List.Forall2

namespace Calculator

/-! ## The lines of a text -/

/-- a line that no carriage return or line feed ends -/
def OneLine (line : Text) : Prop := '\r' ∉ line ∧ '\n' ∉ line

instance (line : Text) : Decidable (OneLine line) := inferInstanceAs (Decidable (_ ∧ _))

/-- `text` holds `lines`, each ended by a newline; only behind a last line that is not empty may it be missing. -/
inductive Holds : List Text → Text → Prop where
  | nil : Holds [] []
  | last {line : Text} (h : line ≠ []) : Holds [line] line
  | cons (line : Text) {lines : List Text} {text : Text} (rest : Holds lines text) :
      Holds (line :: lines) (line ++ '\n' :: text)

theorem splitLines_append_newline {line : Text} (h : OneLine line) (rest : Text) :
    splitLines (line ++ '\n' :: rest) = (line ++ ['\n']) :: splitLines rest := by
  induction line with
  | nil =>
    rw [List.nil_append, splitLines, if_pos (.inr rfl)]
    · rfl
    · exact fun _ hc _ => absurd hc (by decide)
  | cons c line ih =>
    obtain ⟨hreturn, hfeed⟩ := h
    rw [List.mem_cons, not_or] at hreturn hfeed
    rw [List.cons_append, splitLines, if_neg (by simp [Ne.symm hreturn.1, Ne.symm hfeed.1]), ih ⟨hreturn.2, hfeed.2⟩]
    · rfl
    · exact fun _ hc _ => hreturn.1 hc.symm

theorem splitLines_last {line : Text} (h : OneLine line) (hne : line ≠ []) : splitLines line = [line] := by
  induction line with
  | nil => exact absurd rfl hne
  | cons c line ih =>
    obtain ⟨hreturn, hfeed⟩ := h
    rw [List.mem_cons, not_or] at hreturn hfeed
    rw [splitLines, if_neg (by simp [Ne.symm hreturn.1, Ne.symm hfeed.1])]
    · by_cases hline : line = []
      · rw [hline, splitLines]
      · rw [ih ⟨hreturn.2, hfeed.2⟩ hline]
    · exact fun _ hc _ => hreturn.1 hc.symm

theorem withoutEnding_concat_newline (line : Text) : withoutEnding (line ++ ['\n']) = withoutEnding line := by
  simp [withoutEnding, dropEndWhile]

/-- lines that differ in their ends alone -/
def SameLine (line line' : Text) : Prop := withoutEnding line = withoutEnding line'

/-- A text that holds lines is cut into them, but for their ends. -/
theorem Holds.splitLines {lines : List Text} {text : Text} (h : Holds lines text)
    (hlines : ∀ line ∈ lines, OneLine line) :
    List.Forall₂ SameLine (splitLines text) lines := by
  induction h with
  | nil => exact .nil
  | @last line hne =>
    rw [splitLines_last (hlines line List.mem_cons_self) hne]
    exact .cons rfl .nil
  | cons line _ ih =>
    obtain ⟨hline, hrest⟩ := List.forall_mem_cons.1 hlines
    rw [splitLines_append_newline hline]
    exact .cons (withoutEnding_concat_newline line) (ih hrest)

/-- Joining does not look at the ends of lines. -/
theorem joinFrom_congr {lines lines' : List Text} (h : List.Forall₂ SameLine lines lines') (pending : Text) :
    joinFrom pending lines = joinFrom pending lines' := by
  induction h generalizing pending with
  | nil => rfl
  | @cons line line' lines lines' hline _ ih =>
    have hcontinues : continues line = continues line' := by rw [continues, continues, hline]
    have hpiece : piece line = piece line' := by rw [piece, piece, hcontinues, hline]
    rw [joinFrom, joinFrom, hcontinues, hpiece, ih, ih]

namespace CommandLine

/-! ## Flags without a value -/

/-- an argument that is one flag, by its letter, its word or an abbreviation of it, which takes no value -/
def IsSwitch (argument : Text) (f : Flag) : Prop :=
  f.valueRule = .none ∧ ∃ byLetter, Shape.of argument = .ok (.flag f byLetter none)

theorem isSwitch_letter {f : Flag} (h : f.valueRule = .none) : IsSwitch ['-', f.letter] f :=
  ⟨h, true, by cases f <;> rfl⟩

theorem isSwitch_word {f : Flag} (h : f.valueRule = .none) : IsSwitch ('-' :: '-' :: f.word.toList) f :=
  ⟨h, false, by cases f <;> rfl⟩

/-- an argument with its shape -/
abbrev Shaped := Text × Shape

section

variable {options : List Text} {flags : List Flag} (h : List.Forall₂ IsSwitch options flags)

include h

/-- Flags without a value have the shapes of flags, and do not change how the arguments behind them are read. -/
theorem shapes_switches : ∃ shaped : List Shaped,
    (∀ rest, shapes (options ++ rest) = (shapes rest).map (shaped ++ ·)) ∧
      ∀ rest, occurrences .before (shaped ++ rest) = flags.map (.flag · none) ++ occurrences .before rest := by
  induction h with
  | nil =>
    refine ⟨[], fun rest => ?_, fun rest => rfl⟩
    rw [List.nil_append]
    cases shapes rest <;> rfl
  | @cons option f options flags hoption _ ih =>
    obtain ⟨shaped, hshapes, hoccurrences⟩ := ih
    obtain ⟨hrule, byLetter, hshape⟩ := hoption
    have hne : option ≠ ['-', '-'] := by
      rintro rfl
      have hambiguous : Shape.of ['-', '-'] = .error (.ambiguous ['-', '-'] Flag.all) := rfl
      rw [hambiguous] at hshape
      cases hshape
    refine ⟨(option, .flag f byLetter none) :: shaped, fun rest => ?_, fun rest => ?_⟩
    · rw [List.cons_append, shapes, if_neg hne, hshape, hshapes]
      cases shapes rest <;> rfl
    · rw [List.cons_append, occurrences, readFlags]
      simp only [hrule, Place.afterFlag, hoccurrences]
      rfl

/-- What is read of flags without a value is read in front of whatever comes behind them. -/
theorem read_switches {rest : List Text} {shaped : List Shaped} (hrest : shapes rest = .ok shaped) :
    read (options ++ rest) = flags.map (.flag · none) ++ occurrences .before shaped := by
  obtain ⟨before, hshapes, hoccurrences⟩ := shapes_switches h
  rw [read, hshapes, hrest]
  exact hoccurrences shaped

end

/-- the progress with another style and action, and with these flags seen -/
def Progress.restyled (p : Progress) (style : Style) (action : Action) (seen : List Flag) : Progress :=
  { p with settings := { p.settings with style := style, action := action }, seen := seen }

/-- **Flags without a value settle the style and the action alone.** Either they decide the outcome, whatever comes
behind them, or the source of the lines is as open behind them as before. -/
theorem gather_switches {flags : List Flag} (hflags : ∀ f ∈ flags, f.valueRule = .none) (p : Progress) :
    (∃ outcome, (∀ s, outcome ≠ .ok (.run s)) ∧
        ∀ openFile rest, gather openFile p (flags.map (.flag · none) ++ rest) = outcome) ∨
      ∃ style action seen, (∀ f ∈ seen, f ∈ p.seen ∨ f.valueRule = .none) ∧
        ∀ openFile rest, gather openFile p (flags.map (.flag · none) ++ rest) =
          gather openFile (p.restyled style action seen) rest := by
  induction flags generalizing p with
  | nil => exact .inr ⟨p.settings.style, p.settings.action, p.seen, fun f hf => .inl hf, fun openFile rest => rfl⟩
  | cons f flags ih =>
    obtain ⟨hf, hrest⟩ := List.forall_mem_cons.1 hflags
    by_cases hhelp : f = .help
    · refine .inl ⟨.ok .help, by simp, fun openFile rest => ?_⟩
      rw [List.map_cons, List.cons_append, gather, if_pos hhelp]
    have hset : ∃ style action, ∀ openFile,
        p.settings.set openFile f none = .ok { p.settings with style := style, action := action } := by
      cases f with
      | file => cases hf
      | prompt => cases hf
      | _ => exact ⟨_, _, fun openFile => rfl⟩
    obtain ⟨style, action, hset⟩ := hset
    cases hrival : f.rival?.filter (· ∈ p.seen) with
    | some rival =>
      refine .inl ⟨.error (.conflict f rival), by simp, fun openFile rest => ?_⟩
      rw [List.map_cons, List.cons_append, gather, if_neg hhelp, hset, hrival]
    | none =>
      have hstep : ∀ openFile rest, gather openFile p ((f :: flags).map (.flag · none) ++ rest) =
          gather openFile (p.restyled style action (p.seen ++ [f]))
            (flags.map (.flag · none) ++ rest) := by
        intro openFile rest
        rw [List.map_cons, List.cons_append, gather, if_neg hhelp, hset, hrival]
        rfl
      rcases ih hrest (p.restyled style action (p.seen ++ [f])) with
        ⟨outcome, hrun, houtcome⟩ | ⟨style', action', seen, hseen, hgather⟩
      · exact .inl ⟨outcome, hrun, fun openFile rest => (hstep openFile rest).trans (houtcome openFile rest)⟩
      · refine .inr ⟨style', action', seen, fun g hg => ?_, fun openFile rest =>
          (hstep openFile rest).trans (hgather openFile rest)⟩
        rcases hseen g hg with hg | hg
        · rcases List.mem_append.1 hg with hg | hg
          · exact .inl hg
          · exact .inr (List.mem_singleton.1 hg ▸ hf)
        · exact .inr hg

/-! ## The three sources -/

theorem occurrences_operands (lines : List Text) :
    occurrences .inside (lines.map (·, .operand)) = lines.map .operand := by
  induction lines with
  | nil => simp [occurrences]
  | cons line lines ih => simp [occurrences, ih]

theorem gather_operands (openFile : Text → Except OpenFault Text) (lines : List Text) (p : Progress) :
    gather openFile p (lines.map .operand) =
      Progress.finish { p with settings := { p.settings with expressions := p.settings.expressions ++ lines } } := by
  induction lines generalizing p with
  | nil => simp [gather]
  | cons line lines ih => simp [gather, ih]

/-- a name that is no flag and does not stand for the standard input -/
def IsFileName (name : Text) : Prop := Shape.of name = .ok .operand ∧ name ≠ ['-']

theorem shapes_file {name : Text} (h : IsFileName name) :
    shapes [['-', 'f'], name] = .ok [(['-', 'f'], .flag .file true none), (name, .operand)] := by
  have hne : name ≠ ['-', '-'] := by
    rintro rfl
    have hambiguous : Shape.of ['-', '-'] = .error (.ambiguous ['-', '-'] Flag.all) := rfl
    have hshape := h.1
    rw [hambiguous] at hshape
    cases hshape
  have hflag : Shape.of ['-', 'f'] = .ok (.flag .file true none) := rfl
  rw [shapes, if_neg (by decide), hflag, shapes, if_neg hne, h.1]
  rfl

/-- **What a command line asks for behind flags without a value.** Either the flags decide it, or the same is asked for
with each source of lines. -/
theorem requests_agree {options : List Text} {flags : List Flag} (h : List.Forall₂ IsSwitch options flags) :
    (∃ outcome, (∀ s, outcome ≠ .ok (.run s)) ∧ ∀ openFile,
        (∀ lines, request openFile (options ++ ['-', '-'] :: lines) = outcome) ∧
        (∀ name, IsFileName name → request openFile (options ++ [['-', 'f'], name]) = outcome) ∧
        request openFile options = outcome) ∨
      ∃ style action, ∀ openFile,
        (∀ lines, request openFile (options ++ ['-', '-'] :: lines) =
          .ok (.run { style := style, action := action, expressions := lines })) ∧
        (∀ name text, IsFileName name → openFile name = .ok text →
          request openFile (options ++ [['-', 'f'], name]) =
            .ok (.run { style := style, action := action, file := some (.contents text) })) ∧
        request openFile options = .ok (.run { style := style, action := action }) := by
  have hflags : ∀ f ∈ flags, f.valueRule = .none := by
    induction h with
    | nil => simp
    | cons hoption _ ih => exact List.forall_mem_cons.2 ⟨hoption.1, ih⟩
  have hlines : ∀ lines, read (options ++ ['-', '-'] :: lines) = flags.map (.flag · none) ++ lines.map .operand := by
    intro lines
    have hshapes : shapes (['-', '-'] :: lines) = .ok ((['-', '-'], .separator) :: lines.map (·, .operand)) := rfl
    rw [read_switches h hshapes, occurrences, if_neg (by decide), occurrences_operands]
  have hfile : ∀ name, IsFileName name →
      read (options ++ [['-', 'f'], name]) = flags.map (.flag · none) ++ [.flag .file (some name)] := by
    intro name hname
    rw [read_switches h (shapes_file hname), occurrences, readFlags]
    simp [Flag.valueRule, occurrences]
  have hnothing : read options = flags.map (.flag · none) ++ [] := by
    have hshapes : shapes [] = .ok [] := rfl
    have hread := read_switches h hshapes
    rwa [List.append_nil, occurrences] at hread
  rcases gather_switches hflags {} with ⟨outcome, hrun, hgather⟩ | ⟨style, action, seen, hseen, hgather⟩
  · refine .inl ⟨outcome, hrun, fun openFile => ⟨fun lines => ?_, fun name hname => ?_, ?_⟩⟩
    · rw [request, hlines, hgather]
    · rw [request, hfile name hname, hgather]
    · rw [request, hnothing, hgather]
  · refine .inr ⟨style, action, fun openFile => ⟨fun lines => ?_, fun name text hname htext => ?_, ?_⟩⟩
    · rw [request, hlines, hgather, gather_operands, Progress.finish, Progress.restyled]
      simp [Settings.prompts]
    · have hprompt : Flag.prompt ∉ seen := by
        intro hmem
        rcases hseen _ hmem with hnone | hrule
        · cases hnone
        · cases hrule
      have hset : Settings.set openFile { style := style, action := action } .file (some name) =
          .ok { style := style, action := action, file := some (.contents text) } := by
        simp [Settings.set, openSource, hname.2, htext, bind, Except.bind, pure, Except.pure]
      have hrival : Flag.file.rival?.filter (· ∈ seen) = none := by
        rw [Flag.rival?, Option.filter_some, if_neg (by simpa using hprompt)]
      rw [request, hfile name hname, hgather, Progress.restyled, gather, if_neg (by decide)]
      simp [hset, hrival, gather, Progress.finish]
    · rw [request, hnothing, hgather, gather, Progress.finish, Progress.restyled]
      simp

/-- What is printed does not depend on how the lines came in, but on the lines when they are joined. -/
theorem perform_congr {s s' : Settings} (hstyle : s.style = s'.style) (haction : s.action = s'.action)
    (hfile : s.file ≠ some .unnamed) (hfile' : s'.file ≠ some .unnamed) {lines lines' : List Text}
    (hlines : List.Forall₂ SameLine lines lines') :
    perform s { lines := lines } = perform s' { lines := lines' } := by
  have hjoined : Input.joined { lines := lines } = Input.joined { lines := lines' } := by
    simp only [Input.joined, joinFrom_congr hlines]
  simp only [perform, hjoined, Settings.advance, Settings.heading, hstyle, haction, hfile, hfile']

/-- A command that is to run, but not in a conversation, does what its settings say with the lines of its source. -/
theorem run_of_request {world : Surroundings} {arguments : List Text} {s : Settings} (source : Source)
    (h : request world.openFile arguments = .ok (.run s)) (hsource : s.source world.terminal = source)
    (hprompt : ∀ prompt, source ≠ .interactive prompt) :
    run world arguments = .completed (perform s (world.input source)) none := by
  have hopened : s.openedPrompt world.terminal = none := by
    unfold Settings.openedPrompt
    split
    · rfl
    · rename_i prompt hinteractive _
      exact absurd (hsource.symm.trans hinteractive) (hprompt prompt)
    · rfl
  rw [run, h]
  simp only [hsource, hopened]

/-- **The sources of lines agree.** Behind flags without a value, the command prints the same and ends with the same
status for lines that are expressions among its arguments, for a file that holds them, and for a standard input that
holds them and is no terminal. -/
theorem sources_agree {options : List Text} {flags : List Flag} (hoptions : List.Forall₂ IsSwitch options flags)
    {lines : List Text} (hne : lines ≠ []) (hlines : ∀ line ∈ lines, OneLine line) {name text : Text}
    (hname : IsFileName name) (htext : Holds lines text) {atArguments atFile atInput : Surroundings}
    (hopen : atFile.openFile name = .ok text) (hinput : Holds lines atInput.standardInput)
    (hterminal : atInput.terminal = false) :
    run atArguments (options ++ ['-', '-'] :: lines) = run atFile (options ++ [['-', 'f'], name]) ∧
      run atFile (options ++ [['-', 'f'], name]) = run atInput options := by
  rcases requests_agree hoptions with ⟨outcome, hrun, houtcome⟩ | ⟨style, action, hrequest⟩
  · obtain ⟨harguments, -, -⟩ := houtcome atArguments.openFile
    obtain ⟨-, hfile, -⟩ := houtcome atFile.openFile
    obtain ⟨-, -, hnothing⟩ := houtcome atInput.openFile
    have hdecided : ∀ world world' arguments arguments', request world.openFile arguments = outcome →
        request world'.openFile arguments' = outcome → run world arguments = run world' arguments' := by
      intro world world' arguments arguments' h h'
      rw [run, run, h, h']
      match outcome, hrun with
      | .error _, _ => rfl
      | .ok .help, _ => rfl
      | .ok (.run s), hrun => exact absurd rfl (hrun s)
    exact ⟨hdecided _ _ _ _ (harguments lines) (hfile name hname), hdecided _ _ _ _ (hfile name hname) hnothing⟩
  · obtain ⟨harguments, -, -⟩ := hrequest atArguments.openFile
    obtain ⟨-, hfile, -⟩ := hrequest atFile.openFile
    obtain ⟨-, -, hnothing⟩ := hrequest atInput.openFile
    have hrunArguments := run_of_request (.lines lines) (harguments lines) (by simp [Settings.source, hne]) (by simp)
    have hrunFile := run_of_request (.lines (splitLines text)) (hfile name text hname hopen) rfl (by simp)
    have hrunInput := run_of_request .standardInput hnothing (by rw [hterminal]; rfl) (by simp)
    have hperform : ∀ (s : Settings) (source : Text), s.style = style → s.action = action → s.file ≠ some .unnamed →
        Holds lines source → perform s { lines := splitLines source } =
          perform { style := style, action := action, expressions := lines } { lines := lines } :=
      fun s source hstyle haction hs hholds => perform_congr hstyle haction hs (by simp) (hholds.splitLines hlines)
    rw [hrunArguments, hrunFile, hrunInput, Surroundings.input, Surroundings.input, Surroundings.input,
      hperform _ _ rfl rfl (by simp) htext, hperform _ _ rfl rfl (by simp) hinput]
    exact ⟨rfl, rfl⟩

/-- a continued line, an empty one, one that is no expression, and a last one that is still to be continued -/
def unevenLines : List Text := ["1 + \\".toList, "2".toList, [], "$".toList, "ans \\".toList]

/-- the lines in a text, the last one without a newline -/
def unevenText : Text := "1 + \\\n2\n\n$\nans \\".toList

/-- The lines agree in quiet hexadecimal, in a file that a newline ends and on an input that none ends. -/
theorem sources_agree_unevenLines :
    run ⟨fun _ => .error .missing, [], true, []⟩ (["-q".toList, "--hex".toList] ++ ['-', '-'] :: unevenLines) =
        run ⟨fun _ => .ok (unevenText ++ ['\n']), [], true, []⟩
          (["-q".toList, "--hex".toList] ++ [['-', 'f'], "sums".toList]) ∧
      run ⟨fun _ => .ok (unevenText ++ ['\n']), [], true, []⟩
          (["-q".toList, "--hex".toList] ++ [['-', 'f'], "sums".toList]) =
        run ⟨fun _ => .error .missing, unevenText, false, []⟩ ["-q".toList, "--hex".toList] := by
  have hoptions : List.Forall₂ IsSwitch ["-q".toList, "--hex".toList] [.quiet, .hex] :=
    .cons (isSwitch_letter rfl) (.cons (isSwitch_word rfl) .nil)
  have hlines : ∀ line ∈ unevenLines, OneLine line := by decide
  have htext : Holds unevenLines (unevenText ++ ['\n']) := .cons _ (.cons _ (.cons _ (.cons _ (.cons _ .nil))))
  have hinput : Holds unevenLines unevenText := .cons _ (.cons _ (.cons _ (.cons _ (.last (by decide)))))
  exact sources_agree hoptions (by decide) hlines ⟨rfl, by decide⟩ htext rfl hinput rfl

end CommandLine

end Calculator
