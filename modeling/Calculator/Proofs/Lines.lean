/-
Joining continued lines loses no text.

Lines are joined one after the other (`Joined.next`): a line that is continued adds its piece to what is pending, and any
other completes a line. So what is pending at the end are the pieces behind the last line that is not continued, and all
pieces together are the text of the lines that come out.

- `contributes`: what a line contributes is the line without its end, and without one backslash if it is continued;
- `joinFrom_append`: lines are joined to what those before them leave pending;
- `lines_joinFrom`, `pending_joinFrom`: lines that are still to be continued at the end complete none;
- `joinContinuations_keeps`: the text, the number and the parts of joined lines.
-/
import Calculator.Lines
import Mathlib.Data.List.DropRight
import Mathlib.Data.List.TakeWhile

namespace Calculator

/-! ## One line -/

/-- what ends a line: carriage returns and line feeds -/
def IsEnding (text : Text) : Prop := ∀ c ∈ text, c = '\r' ∨ c = '\n'

/-- `Contributes line text continued`: the line contributes the text, and is continued in the next one or not. -/
inductive Contributes : Text → Text → Bool → Prop where
  | continued (text : Text) {ending : Text} (hending : IsEnding ending) :
      Contributes (text ++ '\\' :: ending) text true
  | complete {text ending : Text} (hending : IsEnding ending)
      (hlast : ∀ c ∈ text.getLast?, c ≠ '\\' ∧ c ≠ '\r' ∧ c ≠ '\n') : Contributes (text ++ ending) text false

theorem exists_ending (line : Text) : ∃ ending, IsEnding ending ∧ withoutEnding line ++ ending = line := by
  refine ⟨_, fun c hc => ?_, dropEndWhile_append _ line⟩
  simpa using List.mem_takeWhile_imp (List.mem_reverse.1 hc)

/-- **What a line contributes.** -/
theorem contributes (line : Text) : Contributes line (piece line) (continues line) := by
  obtain ⟨ending, hending, hline⟩ := exists_ending line
  by_cases hcontinues : continues line
  · have hlast : (withoutEnding line).getLast? = some '\\' := by simpa [continues] using hcontinues
    obtain ⟨text, htext⟩ := List.getLast?_eq_some_iff.1 hlast
    have hpiece : piece line = text := by rw [piece, if_pos hcontinues, htext, List.dropLast_concat]
    rw [hcontinues, hpiece, ← hline, htext, List.append_assoc]
    exact .continued text hending
  · have hpiece : piece line = withoutEnding line := by rw [piece, if_neg hcontinues]
    rw [Bool.eq_false_iff.2 hcontinues, hpiece]
    have hcomplete : Contributes (withoutEnding line ++ ending) (withoutEnding line) false := by
      refine .complete hending fun c hc => ⟨?_, ?_⟩
      · rintro rfl
        exact hcontinues (by simpa [continues] using hc)
      · simpa using getLast?_dropEndWhile hc
    rwa [hline] at hcomplete

/-! ## Lines -/

/-- the lines with one more behind them -/
def Joined.next (j : Joined) (line : Text) : Joined :=
  if continues line then ⟨j.lines, j.pending ++ piece line⟩ else ⟨j.lines ++ [j.pending ++ piece line], []⟩

section

variable (pending : Text) (lines more : List Text) {line : Text}

/-- Lines are joined to what those before them leave pending. -/
theorem joinFrom_append :
    joinFrom pending (lines ++ more) =
      ⟨(joinFrom pending lines).lines ++ (joinFrom (joinFrom pending lines).pending more).lines,
        (joinFrom (joinFrom pending lines).pending more).pending⟩ := by
  induction lines generalizing pending with
  | nil => rfl
  | cons line lines ih =>
    rw [List.cons_append, joinFrom, joinFrom]
    split
    · exact ih _
    · rw [ih]
      rfl

theorem joinFrom_concat (line : Text) : joinFrom pending (lines ++ [line]) = (joinFrom pending lines).next line := by
  rw [joinFrom_append, joinFrom, joinFrom, joinFrom, Joined.next]
  split
  · rw [List.append_nil]
  · rfl

/-- All pieces are in the lines, or pending. -/
theorem flatten_joinFrom :
    (joinFrom [] lines).lines.flatten ++ (joinFrom [] lines).pending = lines.flatMap piece := by
  induction lines using List.reverseRecOn with
  | nil => rfl
  | append_singleton lines line ih =>
    rw [joinFrom_concat, List.flatMap_append, List.flatMap_singleton, ← ih, Joined.next]
    split
    · exact (List.append_assoc ..).symm
    · simp

theorem length_joinFrom : (joinFrom [] lines).lines.length = lines.countP fun line => !continues line := by
  induction lines using List.reverseRecOn with
  | nil => rfl
  | append_singleton lines line ih =>
    rw [joinFrom_concat, List.countP_append, ← ih, Joined.next]
    split
    · rename_i hline
      simp [hline]
    · rename_i hline
      simp [hline]

/-- What is pending at the end are the pieces behind the last line that is not continued. -/
theorem pending_joinFrom : (joinFrom [] lines).pending = (lines.rtakeWhile continues).flatMap piece := by
  induction lines using List.reverseRecOn with
  | nil => rfl
  | append_singleton lines line ih =>
    rw [joinFrom_concat, Joined.next]
    split
    · rename_i hline
      rw [List.rtakeWhile_concat_pos _ _ _ hline, List.flatMap_append, List.flatMap_singleton, ← ih]
    · rename_i hline
      rw [List.rtakeWhile_concat_neg _ _ _ hline]
      rfl

/-- Lines that are still to be continued at the end complete none. -/
theorem lines_joinFrom : (joinFrom [] (lines.rdropWhile continues)).lines = (joinFrom [] lines).lines := by
  induction lines using List.reverseRecOn with
  | nil => rfl
  | append_singleton lines line ih =>
    by_cases hline : continues line
    · rw [List.rdropWhile_concat_pos _ _ _ hline, ih, joinFrom_concat, Joined.next, if_pos hline]
    · rw [List.rdropWhile_concat_neg _ _ _ hline]

/-! ## The end of input -/

theorem Joined.flush_eq (j : Joined) : j.flush = j.lines ++ if j.pending = [] then [] else [j.pending] := by
  unfold flush
  split <;> simp_all

/-- Nothing is pending behind a line that is not continued. -/
theorem pending_joinFrom_eq_nil (hlast : ∀ line ∈ lines.getLast?, continues line = false) :
    (joinFrom [] lines).pending = [] := by
  have hempty : lines.rtakeWhile continues = [] := by
    rw [List.rtakeWhile_eq_nil_iff]
    intro hne
    simpa using hlast _ (List.getLast?_eq_some_getLast hne)
  rw [pending_joinFrom, hempty, List.flatMap_nil]

/-- Without the lines that are still to be continued at the end, only the others come out. -/
theorem joinContinuations_rdropWhile :
    joinContinuations (lines.rdropWhile continues) = (joinFrom [] lines).lines := by
  have hempty : (lines.rdropWhile continues).rtakeWhile continues = [] :=
    List.rtakeWhile_eq_nil_iff.2 fun hne => List.rdropWhile_last_not continues lines hne
  rw [joinContinuations, Joined.flush_eq, pending_joinFrom, hempty, lines_joinFrom]
  exact List.append_nil _

end

/-- **Joining keeps the text.** A line contributes all of it but its end and the backslash that continues it. The lines
that come out consist of these pieces, and there is one for each line that is not continued and one for what is left at
the end. Behind a line that is not continued, joining begins anew. -/
theorem joinContinuations_keeps (lines : List Text) :
    (∀ line, Contributes line (piece line) (continues line)) ∧
      (joinContinuations lines).flatten = lines.flatMap piece ∧
      (joinContinuations lines).length = lines.countP (fun line => !continues line) +
        (if (lines.rtakeWhile continues).flatMap piece = [] then 0 else 1) ∧
      ∀ others, (∀ line ∈ lines.getLast?, continues line = false) →
        joinContinuations (lines ++ others) = joinContinuations lines ++ joinContinuations others := by
  refine ⟨contributes, ?_, ?_, fun others hlast => ?_⟩
  · rw [joinContinuations, Joined.flush_eq, List.flatten_append, ← flatten_joinFrom]
    split
    · rename_i hpending
      rw [hpending, List.flatten_nil]
    · rw [List.flatten_singleton]
  · rw [joinContinuations, Joined.flush_eq, List.length_append, length_joinFrom, ← pending_joinFrom]
    split <;> rfl
  · have hpending := pending_joinFrom_eq_nil lines hlast
    rw [joinContinuations, joinContinuations, joinContinuations, joinFrom_append, hpending]
    simp only [Joined.flush_eq, hpending, if_pos, List.append_nil, List.append_assoc]

/-- a line that is continued twice, the second time by a backslash alone, an empty line, and one that is left to be
continued -/
def continuedLines : List Text := ["1 +\\\\\r\n".toList, "\\".toList, "2\n".toList, [], "\\3\\".toList]

/-- Two lines are joined behind an empty one, and the last of them is left at the end. -/
theorem joinContinuations_keeps_continuedLines :
    (∀ line ∈ continuedLines.dropLast.getLast?, continues line = false) ∧
      joinContinuations continuedLines = ["1 +\\2".toList, [], "\\3".toList] ∧
      joinContinuations (continuedLines.dropLast ++ continuedLines) =
        joinContinuations continuedLines.dropLast ++ joinContinuations continuedLines := by
  have hlast : ∀ line ∈ continuedLines.dropLast.getLast?, continues line = false := by decide
  obtain ⟨-, -, -, happend⟩ := joinContinuations_keeps continuedLines.dropLast
  exact ⟨hlast, by decide, happend continuedLines hlast⟩

end Calculator
