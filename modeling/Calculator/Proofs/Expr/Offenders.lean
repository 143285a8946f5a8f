/-
The token that a line is refused for, and the calls it stands in.

`firstOffender` passes over tokens once and finds the first that is not admitted. It sees a token inside calls with all
of their parentheses open, while the reader sees it in an argument that is set aside.

- `firstOffender_arguments`: what offends in an argument offends behind the opening parenthesis of the call, one call
  deeper;
- `firstOffender_closed`: behind the arguments, what offends behind the call does;
- `firstOffender_suffix`, `openAfter_suffix`: both passes say what stands at which position.
-/
import Calculator.Proofs.Expr.Arguments

namespace Calculator

/-- the calls among open parentheses, the innermost first -/
def callsOf (opened : List (Option String)) : List String := opened.filterMap id

instance (opened : List Bool) (l : Lexeme) : Decidable (Admits opened l) :=
  inferInstanceAs (Decidable (_ ∧ (_ → _)))

/-- the first of some tokens, up to the end of input, that is not admitted, and the calls it stands in -/
def firstOffender : List (Option String) → Option String → List Token → Option (Token × List String)
  | _, _, [] => none
  | opened, before, t :: rest =>
    if t.lexeme = .endOfInput then none
    else if Admits (opened.map Option.isSome) t.lexeme then
      firstOffender (openStep opened before t.lexeme) t.lexeme.name? rest
    else some (t, callsOf opened)

/-- the first offender in arguments, of which the first stands in further parentheses -/
def argumentsOffender : List (Option String) → Option String → List (List Token) → Option (Token × List String)
  | _, _, [] => none
  | inner, before, first :: others => firstOffender inner before first <|> argumentsOffender [] none others

theorem map_openStep {α β : Type} (f : α → β) (opened : List α) (mark : α) (l : Lexeme) :
    (openStep opened mark l).map f = openStep (opened.map f) (f mark) l := by
  unfold openStep
  split
  · rfl
  · exact List.map_tail
  · rfl

theorem Lexeme.isSome_name? (l : Lexeme) : l.name?.isSome = l.isName := by cases l <;> rfl

section

variable {opened inner outer : List (Option String)} {before mark : Option String} {t : Token} {rest ts : List Token}
  {name : String}

@[simp] theorem callsOf_nil : callsOf [] = [] := rfl

@[simp] theorem callsOf_cons_none : callsOf (none :: opened) = callsOf opened := rfl

@[simp] theorem callsOf_cons_some : callsOf (some name :: opened) = name :: callsOf opened := rfl

@[simp] theorem callsOf_append : callsOf (inner ++ outer) = callsOf inner ++ callsOf outer := List.filterMap_append

/-! ## One token -/

theorem firstOffender_end (h : t.lexeme = .endOfInput) : firstOffender opened before (t :: rest) = none := by
  rw [firstOffender, if_pos h]

theorem firstOffender_admitted (hend : t.lexeme ≠ .endOfInput) (h : Admits (opened.map Option.isSome) t.lexeme) :
    firstOffender opened before (t :: rest) =
      firstOffender (openStep opened before t.lexeme) t.lexeme.name? rest := by
  rw [firstOffender, if_neg hend, if_pos h]

theorem firstOffender_offends (hend : t.lexeme ≠ .endOfInput) (h : ¬ Admits (opened.map Option.isSome) t.lexeme) :
    firstOffender opened before (t :: rest) = some (t, callsOf opened) := by
  rw [firstOffender, if_neg hend, if_neg h]

theorem firstOffender_call {p : Token} (ht : t.lexeme = .name name) (hp : p.lexeme = .operator .leftParen) :
    firstOffender opened before (t :: p :: rest) = firstOffender (some name :: opened) none rest := by
  rw [firstOffender_admitted (by simp [ht]) (by simp [ht, Admits, Lexeme.isForeign]),
    firstOffender_admitted (by simp [hp]) (by simp [hp, Admits, Lexeme.isForeign]), ht, hp]
  rfl

/-- Where everything is accepted, nothing offends. -/
theorem firstOffender_of_accepts (h : Accepts (opened.map Option.isSome) before.isSome ts) :
    firstOffender opened before ts = none := by
  induction ts generalizing opened before with
  | nil => rfl
  | cons t rest ih =>
    by_cases hend : t.lexeme = .endOfInput
    · exact firstOffender_end hend
    · obtain ⟨hadmits, hrest⟩ := (accepts_cons hend).1 h
      rw [firstOffender_admitted hend hadmits]
      refine ih ?_
      rwa [map_openStep, Lexeme.isSome_name?]

/-! ## Calls -/

theorem admits_comma (ht : t.lexeme = .punctuation .comma) :
    Admits ((some name :: outer).map Option.isSome) t.lexeme := by
  simp [ht, Admits, Lexeme.isForeign]

theorem admits_inside_iff (h : Inside inner.length t.lexeme) :
    Admits ((inner ++ outer).map Option.isSome) t.lexeme ↔ Admits (inner.map Option.isSome) t.lexeme := by
  rw [List.map_append, admits_inside (by rwa [List.length_map])]

theorem firstOffender_of_comma {opened : List (Option String)} (ht : t.lexeme = .punctuation .comma) :
    firstOffender (some name :: opened) before (t :: rest) = firstOffender (some name :: opened) none rest := by
  rw [firstOffender_admitted (by simp [ht]) (admits_comma ht), ht]
  rfl

theorem argumentsOffender_push (hend : t.lexeme ≠ .endOfInput) (h : Admits (inner.map Option.isSome) t.lexeme)
    (b : CallBody) :
    argumentsOffender inner before (b.push t).arguments =
      argumentsOffender (openStep inner before t.lexeme) t.lexeme.name? b.arguments := by
  obtain ⟨_ | ⟨first, others⟩, ending⟩ := b
  · rfl
  · simp only [CallBody.push, argumentsOffender]
    rw [firstOffender_admitted hend h]

theorem argumentsOffender_push_offends (hend : t.lexeme ≠ .endOfInput) (h : ¬ Admits (inner.map Option.isSome) t.lexeme)
    {b : CallBody} (hb : b.arguments ≠ []) :
    argumentsOffender inner before (b.push t).arguments = some (t, callsOf inner) := by
  obtain ⟨_ | ⟨first, others⟩, ending⟩ := b
  · exact absurd rfl hb
  · simp only [CallBody.push, argumentsOffender]
    rw [firstOffender_offends hend h]
    rfl

/-- What offends in an argument offends behind the opening parenthesis of the call. -/
theorem firstOffender_arguments {depth : Nat} (hdepth : inner.length = depth) {names : List String} {u : Token}
    (h : argumentsOffender inner before (splitArguments depth ts).arguments = some (u, names)) :
    firstOffender (inner ++ some name :: outer) before ts = some (u, names ++ name :: callsOf outer) := by
  induction depth, ts using splitting_induct generalizing inner before with
  | nil depth => simp [splitArguments, argumentsOffender] at h
  | stop depth t rest ht => simp [splitArguments_end depth ht, argumentsOffender] at h
  | closing t rest ht => simp [splitArguments_closing ht, argumentsOffender, firstOffender] at h
  | comma t rest ht ih =>
    obtain rfl := List.length_eq_zero_iff.1 hdepth
    rw [splitArguments_comma ht] at h
    rw [List.nil_append, firstOffender_of_comma ht]
    exact ih hdepth h
  | inside depth t rest ht ih =>
    subst hdepth
    rw [splitArguments_inside ht] at h
    by_cases hadmits : Admits (inner.map Option.isSome) t.lexeme
    · rw [argumentsOffender_push ht.1 hadmits] at h
      rw [firstOffender_admitted ht.1 ((admits_inside_iff ht).2 hadmits), openStep_inside ht]
      exact ih (length_openStep inner before t.lexeme) h
    · have hne : (splitArguments (depthStep inner.length t.lexeme) rest).arguments ≠ [] := by
        intro hempty
        rw [CallBody.arguments_push_eq_nil hempty] at h
        cases h
      rw [argumentsOffender_push_offends ht.1 hadmits hne] at h
      cases h
      rw [firstOffender_offends ht.1 (mt (admits_inside_iff ht).1 hadmits), callsOf_append, callsOf_cons_some]

/-- Behind arguments in which nothing offends, what offends behind the call does. -/
theorem firstOffender_closed {depth : Nat} (hdepth : inner.length = depth) {after : List Token}
    (hending : (splitArguments depth ts).ending = .closed after)
    (h : argumentsOffender inner before (splitArguments depth ts).arguments = none) :
    firstOffender (inner ++ some name :: outer) before ts = firstOffender outer none after := by
  induction depth, ts using splitting_induct generalizing inner before with
  | nil depth => cases hending
  | stop depth t rest ht => rw [splitArguments_end depth ht] at hending; cases hending
  | closing t rest ht =>
    obtain rfl := List.length_eq_zero_iff.1 hdepth
    rw [splitArguments_closing ht] at hending
    cases hending
    rw [firstOffender_admitted (by simp [ht]) (by simp [ht, Admits, Lexeme.isForeign]), ht]
    rfl
  | comma t rest ht ih =>
    obtain rfl := List.length_eq_zero_iff.1 hdepth
    rw [splitArguments_comma ht] at h hending
    rw [List.nil_append, firstOffender_of_comma ht]
    exact ih hdepth hending h
  | inside depth t rest ht ih =>
    subst hdepth
    rw [splitArguments_inside ht] at h hending
    rw [CallBody.ending_push] at hending
    by_cases hadmits : Admits (inner.map Option.isSome) t.lexeme
    · rw [argumentsOffender_push ht.1 hadmits] at h
      rw [firstOffender_admitted ht.1 ((admits_inside_iff ht).2 hadmits), openStep_inside ht]
      exact ih (length_openStep inner before t.lexeme) hending h
    · rw [argumentsOffender_push_offends ht.1 hadmits (arguments_ne_nil hending)] at h
      cases h

theorem argumentsOffender_callBody (ts : List Token) :
    argumentsOffender [] none (callBody ts).arguments = argumentsOffender [] none (splitArguments 0 ts).arguments := by
  unfold callBody
  split
  · rename_i h
    rw [h]
    rfl
  · rfl

/-! ## Positions -/

/-- the name right before a position -/
def nameBefore (ts : List Token) : Nat → Option String
  | 0 => none
  | i + 1 => (lexemeAt ts i).bind Lexeme.name?

/-- the calls around a position, the innermost first -/
def enclosingCalls (ts : List Token) (i : Nat) : List String := callsOf ((openParens (ts.take i)).map (nameBefore ts))

/-- a token that no expression has there: one that is foreign to all, or a comma that is not directly inside a call -/
def Offends (ts : List Token) (i : Nat) : Prop :=
  ∃ l, lexemeAt ts i = some l ∧ (l.isForeign = true ∨ l = .punctuation .comma ∧ ¬ InsideCall ts i)

section

variable {all us : List Token}

theorem nameBefore_succ {i : Nat} {l : Lexeme} (h : lexemeAt all i = some l) : nameBefore all (i + 1) = l.name? := by
  rw [nameBefore, h]
  rfl

theorem afterName_iff {i : Nat} : AfterName all i ↔ (nameBefore all i).isSome := by
  cases i with
  | zero => simp [AfterName, nameBefore]
  | succ i =>
    cases h : lexemeAt all i with
    | none => simp [AfterName, nameBefore, h]
    | some l => cases l <;> simp [AfterName, nameBefore, h, Lexeme.name?]

/-- What is open before a position belongs to a call exactly when a name stands right before it. -/
theorem callParen_iff {i : Nat} (h : i ∈ openParens us) (hall : all = us ++ ts) :
    CallParen all i ↔ (nameBefore all i).isSome := by
  rw [CallParen, ← afterName_iff, hall, lexemeAt_append_left _ (lt_of_mem_openParens h), isParen_of_mem_openParens h]
  simp

theorem insideCall_iff (hall : all = us ++ ts) :
    InsideCall all us.length ↔ (((openParens us).map (nameBefore all)).map Option.isSome).head? = some true := by
  rw [InsideCall, hall, List.take_left, ← hall]
  cases hopen : openParens us with
  | nil => simp
  | cons i others => simp [callParen_iff (hopen ▸ List.mem_cons_self) hall]

theorem offends_iff (hall : all = us ++ t :: rest) :
    Offends all us.length ↔ ¬ Admits (((openParens us).map (nameBefore all)).map Option.isSome) t.lexeme := by
  have hat : lexemeAt all us.length = some t.lexeme := by rw [hall, lexemeAt_length]
  rw [Offends, hat, Admits, ← insideCall_iff hall, not_and_or, Classical.not_imp, Bool.not_eq_false]
  simp

/-- The step of the pass, by position. -/
theorem openStep_map_openParens :
    openStep ((openParens us).map (nameBefore all)) (nameBefore all us.length) t.lexeme =
      (openParens (us ++ [t])).map (nameBefore all) := by
  rw [openParens_snoc, map_openStep]

theorem nameBefore_snoc (hall : all = us ++ t :: rest) : nameBefore all (us ++ [t]).length = t.lexeme.name? := by
  rw [List.length_append, List.length_singleton]
  exact nameBefore_succ (by rw [hall, lexemeAt_length])

theorem firstOffender_suffix {u : Token} {names : List String} (hall : all = us ++ ts)
    (h : firstOffender ((openParens us).map (nameBefore all)) (nameBefore all us.length) ts = some (u, names)) :
    ∃ i, us.length ≤ i ∧ all[i]? = some u ∧ Offends all i ∧ (∀ j, us.length ≤ j → j < i → ¬ Offends all j) ∧
      names = enclosingCalls all i := by
  induction ts generalizing us with
  | nil => cases h
  | cons t rest ih =>
    by_cases hend : t.lexeme = .endOfInput
    · rw [firstOffender_end hend] at h
      cases h
    by_cases hadmits : Admits (((openParens us).map (nameBefore all)).map Option.isSome) t.lexeme
    · rw [firstOffender_admitted hend hadmits, openStep_map_openParens, ← nameBefore_snoc hall] at h
      obtain ⟨i, hi, hat, hoffends, hfirst, hnames⟩ := ih (by simp [hall]) h
      rw [List.length_append, List.length_singleton] at hi hfirst
      refine ⟨i, Nat.le_of_succ_le hi, hat, hoffends, fun j hj hlt => ?_, hnames⟩
      rcases Nat.lt_or_eq_of_le hj with hj | rfl
      · exact hfirst j hj hlt
      · exact fun h => (offends_iff hall).1 h hadmits
    · rw [firstOffender_offends hend hadmits] at h
      cases h
      refine ⟨us.length, Nat.le_refl _, by simp [hall], (offends_iff hall).2 hadmits, fun j hj hlt => ?_, ?_⟩
      · exact absurd (Nat.lt_of_le_of_lt hj hlt) (Nat.lt_irrefl _)
      · rw [enclosingCalls, hall, List.take_left]

theorem openAfter_suffix (hall : all = us ++ ts)
    (hlast : ∀ us t rest, all = us ++ t :: rest → t.lexeme = .endOfInput → rest = []) :
    openAfter ((openParens us).map (nameBefore all)) (nameBefore all us.length) ts =
      (openParens all).map (nameBefore all) := by
  induction ts generalizing us with
  | nil => rw [hall, List.append_nil]; rfl
  | cons t rest ih =>
    by_cases hend : t.lexeme = .endOfInput
    · obtain rfl := hlast us t rest hall hend
      rw [openAfter_end hend]
      congr 1
      rw [hall, openParens_snoc, hend]
      rfl
    · rw [openAfter_cons hend, openStep_map_openParens, ← nameBefore_snoc hall]
      exact ih (by simp [hall])

/-- Below an open parenthesis on the stack is what was open before it. -/
theorem openParens_take {i : Nat} {xs ys : List Nat} (h : openParens ts = xs ++ i :: ys) :
    openParens (ts.take i) = ys := by
  induction ts using List.reverseRecOn generalizing xs with
  | nil => cases xs <;> cases h
  | append_singleton ts t ih =>
    -- What is below in the stack behind the token was below in the stack before it.
    have hbelow : ∀ xs, openParens ts = xs ++ i :: ys → openParens ((ts ++ [t]).take i) = ys := by
      intro xs hxs
      have hlt : i < ts.length := lt_of_mem_openParens (hxs ▸ List.mem_append_right xs List.mem_cons_self)
      rw [List.take_append_of_le_length (Nat.le_of_lt hlt)]
      exact ih hxs
    rw [openParens_snoc] at h
    unfold openStep at h
    split at h
    · cases xs with
      | nil =>
        obtain ⟨rfl, rfl⟩ := List.cons.inj h
        rw [List.take_left]
      | cons x xs => exact hbelow xs (List.cons.inj h).2
    · cases hopen : openParens ts with
      | nil => rw [hopen] at h; cases xs <;> cases h
      | cons k others =>
        rw [hopen] at h
        refine hbelow (k :: xs) ?_
        rw [hopen, List.cons_append]
        exact congrArg (k :: ·) h
    · exact hbelow xs h

end

end

end Calculator
