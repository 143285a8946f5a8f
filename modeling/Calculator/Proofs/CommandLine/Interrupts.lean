/-
Interrupted conversations.

What is typed is dealt with line by line (`Settings.converse`). An interrupt ends this at once: the line that was being
continued is never completed, what has been printed stays, and the command fails. Line by line, nothing else is done
than with all complete lines at once, so a conversation can be compared with a run on some of its lines.

- `Settings.advance_append`: what is done with lines does not depend on whether more come behind them;
- `Settings.converse_eq`: a conversation does what is done with all of its complete lines at once;
- `interrupt_keeps`: an interrupted conversation prints what the complete lines before the interrupt print.
-/
import Calculator.CommandLine.Command
import Calculator.Proofs.Lines

namespace Calculator.CommandLine

/-! ## Lines that come in turn -/

/-- the result of a command that has printed something before -/
def Result.behind (r : Result) (output : Output) : Result :=
  { r with stdout := output.stdout ++ r.stdout, stderr := output.stderr ++ r.stderr }

/-- what comes of what a user types, and of the interrupt or the end of input behind it -/
def Settings.converse (s : Settings) (c : Conversation) : List Typed → Result
  | [] =>
    let (session, output) := s.conclude c
    ⟨output.stdout, output.stderr, session.failed⟩
  | none :: _ => ⟨[], [], true⟩
  | some line :: typed =>
    let (c, output) := s.hear c line
    (s.converse c typed).behind output

section

variable (s : Settings) (session : Session) (c : Conversation) (lines more : List Text) (typed : List Typed)

/-- What is done with lines does not depend on whether more come behind them. -/
theorem Settings.advance_append :
    s.advance session (lines ++ more) =
      (((s.advance (s.advance session lines).1 more).1),
        ⟨(s.advance session lines).2.stdout ++ (s.advance (s.advance session lines).1 more).2.stdout,
          (s.advance session lines).2.stderr ++ (s.advance (s.advance session lines).1 more).2.stderr⟩) := by
  unfold Settings.advance
  cases s.action with
  | evaluate => simp only [Session.run_append, List.flatMap_append]
  | dump => simp only [List.flatMap_append, List.append_nil]
  | printGrammar => rfl

theorem Settings.advance_nil : s.advance session [] = (session, ⟨[], []⟩) := by
  unfold Settings.advance
  cases s.action <;> rfl

/-- the complete lines of an input, behind the beginning of one -/
def Input.joinedTo (pending : Text) (input : Input) : List Text :=
  let j := joinFrom pending input.lines
  if input.interrupted then j.lines else j.flush

theorem Input.joinedTo_cons (pending line : Text) (lines : List Text) (interrupted : Bool) :
    Input.joinedTo pending ⟨line :: lines, interrupted⟩ =
      (joinFrom pending [line]).lines ++ Input.joinedTo (joinFrom pending [line]).pending ⟨lines, interrupted⟩ := by
  have happend := joinFrom_append pending [line] lines
  rw [List.singleton_append] at happend
  simp only [Input.joinedTo, happend]
  cases interrupted with
  | true => rfl
  | false => simp only [Joined.flush_eq, Bool.false_eq_true, if_false, List.append_assoc]

/-- **Line by line, or all at once.** A conversation does what is done with all of its complete lines, and fails if it
is interrupted. -/
theorem Settings.converse_eq :
    s.converse c typed =
      let input := Input.ofTyped typed
      let result := s.advance c.session (input.joinedTo c.pending)
      ⟨result.2.stdout, result.2.stderr, result.1.failed || input.interrupted⟩ := by
  induction typed generalizing c with
  | nil => simp [Settings.converse, Settings.conclude, Input.ofTyped, Input.joinedTo, joinFrom]
  | cons t typed ih =>
    cases t with
    | none => simp [Settings.converse, Input.ofTyped, Input.joinedTo, joinFrom, Settings.advance_nil]
    | some line =>
      have htyped : Input.ofTyped (some line :: typed) =
          ⟨line :: (Input.ofTyped typed).lines, (Input.ofTyped typed).interrupted⟩ := by
        simp [Input.ofTyped]
      simp only [Settings.converse, ih, htyped, Input.joinedTo_cons, Settings.advance_append, Settings.hear,
        Result.behind]

/-! ## Commands that converse -/

theorem Input.ofTyped_interrupted (lines : List Text) (after : List Typed) :
    Input.ofTyped (lines.map some ++ none :: after) = ⟨lines, true⟩ := by
  simp [Input.ofTyped]

theorem Input.ofTyped_lines (lines : List Text) : Input.ofTyped (lines.map some) = ⟨lines, false⟩ := by
  have hall : (lines.map some).takeWhile Option.isSome = lines.map some := by
    simp [List.takeWhile_eq_self_iff]
  simp [Input.ofTyped, hall]

end

/-- A command that converses has no file. -/
theorem file_of_interactive {s : Settings} {terminal : Bool} {prompt : Text}
    (h : s.source terminal = .interactive prompt) : s.file = none := by
  unfold Settings.source at h
  split at h
  · cases h
  · split at h
    · cases h
    · cases h
    · cases h
    · assumption

section

variable {world : Surroundings} {arguments : List Text} {s : Settings} {prompt : Text}

/-- A command that is to converse does what its settings say with what is typed. -/
theorem run_of_interactive (hrequest : request world.openFile arguments = .ok (.run s))
    (haction : s.action ≠ .printGrammar) (hsource : s.source world.terminal = .interactive prompt) :
    run world arguments = .completed (perform s (Input.ofTyped world.typed)) (some prompt) := by
  have hopened : s.openedPrompt world.terminal = some prompt := by
    unfold Settings.openedPrompt
    rw [hsource]
    cases h : s.action with
    | printGrammar => exact absurd h haction
    | evaluate => rfl
    | dump => rfl
  rw [run, hrequest]
  simp only [hsource, hopened, Surroundings.input]

/-- The command does what is asked for when each line is typed. -/
theorem perform_ofTyped (haction : s.action ≠ .printGrammar) (hfile : s.file = none) (typed : List Typed) :
    perform s (Input.ofTyped typed) = (s.converse {} typed).behind ⟨s.heading, []⟩ := by
  simp [perform, Settings.converse_eq, Input.joinedTo, Input.joined, Result.behind, haction, hfile]

/-- `Interrupted world arguments prompt before result`: the command converses, and this is its result when a user types
the lines `before` and then interrupts it. -/
structure Interrupted (world : Surroundings) (arguments : List Text) (prompt : Text) (before : List Text)
    (result : Result) : Prop where
  /-- Nothing that is typed behind the interrupt matters. -/
  later : ∀ after,
    run { world with typed := before.map some ++ none :: after } arguments = .completed result (some prompt)
  /-- The lines that are not still to be continued print the same alone, when the input ends behind them. -/
  complete : ∃ alone,
    run { world with typed := (before.rdropWhile continues).map some } arguments =
      .completed alone (some prompt) ∧ result.stdout = alone.stdout ∧ result.stderr = alone.stderr
  failed : result.failed = true

/-- **An interrupt keeps what is complete.** An interrupted conversation has printed what was printed line by line up to
the interrupt. This is what the lines before print without those at their end that are still to be continued, whatever
is typed later, and the command fails. -/
theorem interrupt_keeps (hrequest : request world.openFile arguments = .ok (.run s))
    (haction : s.action ≠ .printGrammar) (hsource : s.source world.terminal = .interactive prompt)
    (before : List Text) :
    Interrupted world arguments prompt before
      ((s.converse {} (before.map some ++ [none])).behind ⟨s.heading, []⟩) := by
  have hfile := file_of_interactive hsource
  have hrun : ∀ typed, run { world with typed := typed } arguments =
      .completed (perform s (Input.ofTyped typed)) (some prompt) :=
    fun typed => run_of_interactive hrequest haction hsource
  rw [← perform_ofTyped haction hfile, Input.ofTyped_interrupted]
  refine ⟨fun after => ?_, ⟨_, hrun _, ?_⟩, ?_⟩
  · rw [hrun, Input.ofTyped_interrupted]
  · rw [Input.ofTyped_lines]
    have hjoined : Input.joined ⟨before.rdropWhile continues, false⟩ = Input.joined ⟨before, true⟩ :=
      joinContinuations_rdropWhile before
    exact ⟨by simp only [perform, hjoined], by simp only [perform, hjoined]⟩
  · simp [perform, haction]

end

/-- a value, a line that cannot be parsed, a use of the value over two lines, and a line that is broken off -/
def brokenOffLines : List Text := ["1 + 2".toList, "$".toList, "ans * \\".toList, "2".toList, "ans\\".toList]

/-- a conversation with the default prompt -/
def conversing : Settings := { prompt := some defaultPrompt }

/-- The line that is broken off is not evaluated, though it could be. -/
theorem interrupt_keeps_brokenOffLines :
    request (fun _ => .error .missing) ["-p".toList] = .ok (.run conversing) ∧
      conversing.action ≠ .printGrammar ∧ conversing.source false = .interactive defaultPrompt ∧
      (conversing.converse {} (brokenOffLines.map some ++ [none])).stdout = ["1 + 2 = 3", "ans * 2 = 6"] ∧
      Interrupted { openFile := fun _ => .error .missing } ["-p".toList] defaultPrompt brokenOffLines
        ((conversing.converse {} (brokenOffLines.map some ++ [none])).behind ⟨[], []⟩) := by
  have hrequest : request (fun _ => .error .missing) ["-p".toList] = .ok (.run conversing) := by with_unfolding_all rfl
  have haction : conversing.action ≠ .printGrammar := by decide
  have hsource : conversing.source false = .interactive defaultPrompt := rfl
  exact ⟨hrequest, haction, hsource, by decide +kernel, interrupt_keeps hrequest haction hsource brokenOffLines⟩

end Calculator.CommandLine
