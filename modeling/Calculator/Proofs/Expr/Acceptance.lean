/-
Which lines are expressions.

A call is read by counting the depth of parentheses and setting the tokens of an argument aside, so one parenthesis is
seen at every level of calls around it. `Accepts` sees each token once instead. It keeps the stack of open parentheses,
of which only those of calls must be closed and only those allow a comma.

- `accepts_splitArguments`: a call is accepted exactly when its arguments and what stands behind it are;
- `readElements_ok_iff`: what is read without error is what is accepted;
- `accepts_suffix_iff`: acceptance is a condition on the positions of tokens;
- `parse_ok_iff`: the lines that are expressions.
-/
import Calculator.Proofs.Expr.Nesting
import Calculator.Proofs.Expr.Reading
import Calculator.Proofs.Token.Scanning

namespace Calculator

/-- no part of any expression: invalid characters, the keyword, braces and brackets -/
def Lexeme.isForeign : Lexeme → Bool
  | invalid _ | letKeyword => true
  | punctuation mark => mark != .comma
  | _ => false

def Lexeme.isName : Lexeme → Bool
  | name _ => true
  | _ => false

/-- A lexeme may stand inside the open parentheses, of which those of calls are `true`. -/
def Admits (opened : List Bool) (l : Lexeme) : Prop :=
  l.isForeign = false ∧ (l = .punctuation .comma → opened.head? = some true)

/-- Tokens, up to the end of input, are admitted one after another and close all calls. -/
def Accepts : List Bool → Bool → List Token → Prop
  | opened, _, [] => true ∉ opened
  | opened, afterName, t :: rest =>
    if t.lexeme = .endOfInput then true ∉ opened
    else Admits opened t.lexeme ∧ Accepts (openStep opened afterName t.lexeme) t.lexeme.isName rest

section

variable {opened inner outer : List Bool} {afterName : Bool} {t : Token} {rest : List Token} {l : Lexeme}

theorem accepts_cons (h : t.lexeme ≠ .endOfInput) :
    Accepts opened afterName (t :: rest) ↔
      Admits opened t.lexeme ∧ Accepts (openStep opened afterName t.lexeme) t.lexeme.isName rest := by
  rw [Accepts, if_neg h]

theorem accepts_end (h : t.lexeme = .endOfInput) : Accepts opened afterName (t :: rest) ↔ true ∉ opened := by
  rw [Accepts, if_pos h]

/-- That a name stands before tokens matters only to an opening parenthesis. -/
theorem accepts_afterName (h : ∀ t ∈ rest.head?, t.lexeme ≠ .operator .leftParen) :
    Accepts opened afterName rest ↔ Accepts opened false rest := by
  cases rest with
  | nil => rfl
  | cons t rest =>
    have hstep : openStep opened afterName t.lexeme = openStep opened false t.lexeme := by
      unfold openStep
      split
      · rename_i ht; exact absurd ht (h t rfl)
      · rfl
      · rfl
    simp only [Accepts, hstep]

/-! ## Calls -/

/-- The mark of a call stays where it is while something inside the call is read. -/
theorem openStep_inside {α : Type} {inner outer : List α} {mark : α} (h : Inside inner.length l) :
    openStep (inner ++ outer) mark l = openStep inner mark l ++ outer := by
  unfold openStep
  split
  · rfl
  · cases inner with
    | nil => simp [Inside] at h
    | cons b inner => rfl
  · rfl

theorem admits_inside (h : Inside inner.length l) : Admits (inner ++ outer) l ↔ Admits inner l := by
  cases inner with
  | nil => simp_all [Inside, Admits]
  | cons b inner => rfl

theorem length_openStep {α : Type} (opened : List α) (mark : α) (l : Lexeme) :
    (openStep opened mark l).length = depthStep opened.length l := by
  fun_cases openStep opened mark l with
  | case1 => rfl
  | case2 => exact List.length_tail
  | case3 l hopen hclose => rw [depthStep_of_ne hopen hclose]

/-- The first argument is accepted with `inner` open, the others with nothing open, and what stands behind the call
with `outer`. -/
def CallBody.Accepted (inner : List Bool) (afterName : Bool) (outer : List Bool) : CallBody → Prop
  | ⟨first :: others, .closed rest⟩ =>
    Accepts inner afterName first ∧ (∀ argument ∈ others, Accepts [] false argument) ∧ Accepts outer false rest
  | _ => False

theorem CallBody.accepted_push (b : CallBody) (h : t.lexeme ≠ .endOfInput) :
    (b.push t).Accepted inner afterName outer ↔
      Admits inner t.lexeme ∧ b.Accepted (openStep inner afterName t.lexeme) t.lexeme.isName outer := by
  match b with
  | ⟨[], .closed _⟩ => simp [push, Accepted]
  | ⟨[], .unclosed _⟩ => simp [push, Accepted]
  | ⟨_ :: _, .unclosed _⟩ => simp [push, Accepted]
  | ⟨_ :: _, .closed _⟩ => simp only [push, Accepted, accepts_cons h, and_assoc]

theorem CallBody.accepted_next (b : CallBody) (h : ∀ rest, b ≠ ⟨[], .closed rest⟩) :
    b.next.Accepted [] afterName outer ↔ b.Accepted [] false outer := by
  match b with
  | ⟨[], .closed rest⟩ => exact absurd rfl (h rest)
  | ⟨[], .unclosed _⟩ => simp [next, Accepted]
  | ⟨_ :: _, .unclosed _⟩ => simp [next, Accepted]
  | ⟨_ :: _, .closed _⟩ => simp [next, Accepted, Accepts, and_assoc]

/-- **Calls are accepted by their parts.** Behind the opening parenthesis of a call and `inner` further ones, what is
set aside as arguments is accepted, and what stands behind the call. -/
theorem accepts_splitArguments {depth : Nat} (hdepth : inner.length = depth) (ts : List Token) :
    Accepts (inner ++ true :: outer) afterName ts ↔ (splitArguments depth ts).Accepted inner afterName outer := by
  induction depth, ts using splitting_induct generalizing inner afterName with
  | nil depth => simp [Accepts, splitArguments, CallBody.Accepted]
  | stop depth t rest ht => simp [accepts_end ht, splitArguments_end depth ht, CallBody.Accepted]
  | closing t rest ht =>
    obtain rfl := List.length_eq_zero_iff.1 hdepth
    rw [accepts_cons (by simp [ht]), splitArguments_closing ht]
    simp [ht, CallBody.Accepted, Admits, Lexeme.isForeign, openStep, Lexeme.isName, Accepts]
  | comma t rest ht ih =>
    obtain rfl := List.length_eq_zero_iff.1 hdepth
    rw [accepts_cons (by simp [ht]), splitArguments_comma ht, CallBody.accepted_next _ (splitArguments_ne 0 rest),
      ← ih hdepth]
    simp [ht, Admits, Lexeme.isForeign, openStep, Lexeme.isName]
  | inside depth t rest ht ih =>
    subst hdepth
    rw [accepts_cons ht.1, admits_inside ht, openStep_inside ht, ih (length_openStep ..), splitArguments_inside ht,
      CallBody.accepted_push _ ht.1]

/-! ## Reading -/

theorem Lexeme.isForeign_of_element? {e : Expr} (h : l.element? = some e) :
    l.isForeign = false ∧ l ≠ .punctuation .comma := by
  cases l <;> simp_all [element?, isForeign]

/-- A token at fault is foreign, or a comma. -/
theorem Lexeme.isForeign_of_fault? {f : ParseFault} (h : l.fault? = some f) :
    l.isForeign = true ∨ l = .punctuation .comma := by
  cases l with
  | punctuation mark => cases mark <;> simp [isForeign]
  | letKeyword => exact .inl rfl
  | invalid text => exact .inl rfl
  | _ => cases h

/-- A name that is not that of a call is an element like any other. -/
theorem accepts_isName (h : ¬ StartsCall t rest) :
    Accepts opened t.lexeme.isName rest ↔ Accepts opened false rest := by
  cases hl : t.lexeme with
  | name n =>
    refine accepts_afterName fun p hp hparen => ?_
    obtain ⟨inner, rfl⟩ := List.head?_eq_some_iff.1 hp
    exact h ⟨n, p, inner, hl, rfl, hparen⟩
  | _ => rfl

/-- The parenthesis of a call is marked, and it is read with the call. -/
theorem accepts_call {p : Token} {name : String} (ht : t.lexeme = .name name) (hp : p.lexeme = .operator .leftParen) :
    Accepts opened afterName (t :: p :: rest) ↔ Accepts (true :: opened) false rest := by
  rw [accepts_cons (by simp [ht]), accepts_cons (by simp [hp]), ht, hp]
  simp [Admits, Lexeme.isForeign, Lexeme.isName, openStep]

theorem accepts_callBody {ts after : List Token} {pieces : List (List Token)}
    (h : callBody ts = ⟨pieces, .closed after⟩) :
    Accepts (true :: outer) false ts ↔ (∀ piece ∈ pieces, Accepts [] false piece) ∧ Accepts outer false after := by
  have hparts := @accepts_splitArguments [] outer false 0 rfl ts
  rw [List.nil_append] at hparts
  rw [hparts]
  obtain ⟨arguments, hsplit, rfl⟩ := callBody_eq_closed_iff.1 h
  rw [hsplit]
  match arguments with
  | [] => exact absurd hsplit (splitArguments_ne 0 ts after)
  | first :: others =>
    split
    · rename_i hempty
      cases hempty
      simp [CallBody.Accepted, Accepts]
    · simp [CallBody.Accepted, and_assoc]

theorem not_accepts_callBody {ts : List Token} {pieces : List (List Token)} {span : Option Span}
    (h : callBody ts = ⟨pieces, .unclosed span⟩) : ¬ Accepts (true :: outer) false ts := by
  have hparts := @accepts_splitArguments [] outer false 0 rfl ts
  rw [List.nil_append] at hparts
  rw [hparts]
  unfold callBody at h
  split at h
  · cases h
  · rw [h]
    cases pieces <;> exact fun hbody => hbody

end

/-- Sequences are read without error exactly when they are accepted, and so are arguments. -/
theorem readElements_ok_iff (line : Text) :
    (∀ ts opened, true ∉ opened → ((∃ es, readElements line ts = .ok es) ↔ Accepts opened false ts)) ∧
      ∀ pieces, (∃ arguments, readArguments line pieces = .ok arguments) ↔ ∀ piece ∈ pieces, Accepts [] false piece := by
  refine reading_induct ?nil ?stop ?newline ?element ?fault ?closed ?unclosed ?none ?argument
  case nil =>
    intro opened hopened
    simp [readElements_nil, Accepts, hopened]
  case stop =>
    intro t rest ht opened hopened
    simp [readElements_end ht, accepts_end ht, hopened]
  case newline =>
    intro t rest ht ih opened hopened
    rw [readElements_newline ht, ih opened hopened, accepts_cons (by simp [ht])]
    simp [ht, Admits, Lexeme.isForeign, openStep, Lexeme.isName]
  case element =>
    intro t rest e ht hcall ih opened hopened
    have hforeign := Lexeme.isForeign_of_element? ht
    have hstep : true ∉ openStep opened false t.lexeme := by
      intro hmem
      rcases mem_openStep hmem with hmem | ⟨hfalse, -⟩
      · exact hopened hmem
      · cases hfalse
    rw [readElements_element ht hcall, accepts_cons (Lexeme.ne_endOfInput_of_element? ht), accepts_isName hcall,
      ← ih _ hstep]
    simp [map_eq_ok_iff, Admits, hforeign]
  case fault =>
    intro t rest f ht opened hopened
    have hadmits : ¬ Admits opened t.lexeme := by
      intro h
      obtain ⟨hforeign, hcomma⟩ := h
      rcases Lexeme.isForeign_of_fault? ht with h | h
      · rw [h] at hforeign; cases hforeign
      · exact hopened (List.mem_of_head? (hcomma h))
    simp [readElements_fault ht, refuse, accepts_cons (Lexeme.ne_endOfInput_of_fault? ht), hadmits]
  case closed =>
    intro t p inner name pieces after ht hp hbody ihPieces ihAfter opened hopened
    rw [accepts_call ht hp, accepts_callBody hbody, ← ihPieces, ← ihAfter opened hopened]
    simp [readElements_closed_eq_ok_iff ht hp hbody]
  case unclosed =>
    intro t p inner name pieces span ht hp hbody _ opened hopened
    rw [accepts_call ht hp]
    simp [readElements_unclosed_ne_ok ht hp hbody, not_accepts_callBody hbody]
  case none =>
    simp [readArguments_nil]
  case argument =>
    intro piece others ihPiece ihOthers
    simp [readArguments_cons_eq_ok_iff, ← ihOthers, ← ihPiece [] (by simp)]

/-! ## Positions -/

/-- From a position on, every comma stands inside a call. -/
def CommasInside (ts : List Token) (n : Nat) : Prop :=
  ∀ i, n ≤ i → lexemeAt ts i = some (.punctuation .comma) → InsideCall ts i

theorem forall₂_openStep {α β : Type} {R : α → β → Prop} {xs : List α} {ys : List β} (h : List.Forall₂ R xs ys)
    {a : α} {b : β} {l : Lexeme} (hab : l = .operator .leftParen → R a b) :
    List.Forall₂ R (openStep xs a l) (openStep ys b l) := by
  unfold openStep
  split
  · exact .cons (hab rfl) h
  · cases h with
    | nil => exact .nil
    | cons _ h => exact h
  · exact h

section

variable {all : List Token} {opened : List Bool} {positions : List Nat}

/-- what is known of each open parenthesis, by its mark and its position -/
def Marked (all : List Token) : List Bool → List Nat → Prop :=
  List.Forall₂ fun mark i => mark = true ↔ CallParen all i

theorem Marked.true_notMem_iff (h : Marked all opened positions) :
    true ∉ opened ↔ ∀ i ∈ positions, ¬ CallParen all i := by
  induction h with
  | nil => simp
  | @cons mark i opened positions hmark _ ih =>
    rw [List.mem_cons, not_or, ih, List.forall_mem_cons, ← hmark]
    simp [eq_comm]

theorem Marked.head?_iff (h : Marked all opened positions) :
    opened.head? = some true ↔ ∃ j, positions.head? = some j ∧ CallParen all j := by
  cases h with
  | nil => simp
  | cons hmark _ => simp [hmark]

theorem commasInside_of_length_le {n : Nat} (h : all.length ≤ n) : CommasInside all n := by
  intro i hi hcomma
  exact absurd (lt_of_lexemeAt hcomma) (Nat.not_lt.2 (Nat.le_trans h hi))

theorem commasInside_succ_iff {n : Nat} {l : Lexeme} (h : lexemeAt all n = some l) :
    CommasInside all n ↔ (l = .punctuation .comma → InsideCall all n) ∧ CommasInside all (n + 1) := by
  constructor
  · intro hall
    exact ⟨fun hl => hall n (Nat.le_refl n) (hl ▸ h), fun i hi => hall i (Nat.le_of_succ_le hi)⟩
  · intro hall i hi hcomma
    rcases Nat.lt_or_eq_of_le hi with hlt | rfl
    · exact hall.2 i hlt hcomma
    · exact hall.1 (Option.some.inj (h.symm.trans hcomma))

theorem afterName_succ_iff {n : Nat} {l : Lexeme} (h : lexemeAt all n = some l) :
    l.isName = true ↔ AfterName all (n + 1) := by
  constructor
  · intro hl
    cases l with
    | name name => exact ⟨n, name, rfl, h⟩
    | _ => cases hl
  · intro hname
    obtain ⟨k, name, hk, hat⟩ := hname
    obtain rfl := Nat.succ.inj hk
    rw [Option.some.inj (h.symm.trans hat)]
    rfl

/-- **Acceptance, by position.** Tokens are accepted behind others exactly when none is foreign, no call is open at
the end, and each comma stands inside a call. -/
theorem accepts_suffix_iff {before ts : List Token} {afterName : Bool} (hall : all = before ++ ts)
    (hlast : ∀ us t rest, all = us ++ t :: rest → t.lexeme = .endOfInput → rest = [])
    (hopened : Marked all opened (openParens before)) (hname : afterName = true ↔ AfterName all before.length) :
    Accepts opened afterName ts ↔
      (∀ t ∈ ts, t.lexeme.isForeign = false) ∧ (∀ i ∈ openParens all, ¬ CallParen all i) ∧
        CommasInside all before.length := by
  induction ts generalizing before opened afterName with
  | nil =>
    rw [List.append_nil] at hall
    subst hall
    rw [Accepts, hopened.true_notMem_iff]
    exact ⟨fun h => ⟨by simp, h, commasInside_of_length_le (Nat.le_refl _)⟩, fun h => h.2.1⟩
  | cons t rest ih =>
    have hat : lexemeAt all before.length = some t.lexeme := by rw [hall, lexemeAt_length]
    by_cases hend : t.lexeme = .endOfInput
    · obtain rfl := hlast _ _ _ hall hend
      have hparens : openParens all = openParens before := by rw [hall, openParens_snoc, hend]; rfl
      have hlength : all.length ≤ before.length + 1 := by rw [hall, List.length_append, List.length_singleton]
      rw [accepts_end hend, hopened.true_notMem_iff, commasInside_succ_iff hat, hparens, List.forall_mem_singleton, hend]
      exact ⟨fun h => ⟨rfl, h, by simp, commasInside_of_length_le hlength⟩, fun h => h.2.1⟩
    -- The token goes to the tokens before, its parenthesis to the open ones.
    have hmark : t.lexeme = .operator .leftParen → (afterName = true ↔ CallParen all before.length) := by
      intro hparen
      rw [hname, CallParen, hat, hparen]
      simp
    have hopened' : Marked all (openStep opened afterName t.lexeme) (openParens (before ++ [t])) := by
      rw [openParens_snoc]
      exact forall₂_openStep hopened hmark
    have hname' : t.lexeme.isName = true ↔ AfterName all (before ++ [t]).length := by
      rw [List.length_append]
      exact afterName_succ_iff hat
    have hinside : opened.head? = some true ↔ InsideCall all before.length := by
      rw [hopened.head?_iff, InsideCall, hall, List.take_left]
    rw [accepts_cons hend, ih (by simp [hall]) hopened' hname', commasInside_succ_iff hat, Admits, hinside,
      List.forall_mem_cons, List.length_append, List.length_singleton]
    constructor
    · intro h
      obtain ⟨⟨hforeign, hcomma⟩, hrest, hclosed, hlater⟩ := h
      exact ⟨⟨hforeign, hrest⟩, hclosed, hcomma, hlater⟩
    · intro h
      obtain ⟨⟨hforeign, hrest⟩, hclosed, hcomma, hlater⟩ := h
      exact ⟨⟨hforeign, hcomma⟩, hrest, hclosed, hlater⟩

end

/-- The end of input stands at the end of the tokens of a line. -/
theorem eq_nil_of_endOfInput {line : Text} {us rest : List Token} {t : Token} (h : tokens line = us ++ t :: rest)
    (ht : t.lexeme = .endOfInput) : rest = [] := by
  obtain ⟨ts, span, heq, hts⟩ := tokens_eq_append line
  rw [heq] at h
  rcases List.eq_nil_or_concat rest with hrest | ⟨init, last, hrest⟩
  · exact hrest
  · rw [hrest, List.concat_eq_append, ← List.cons_append, ← List.append_assoc] at h
    have hmem : t ∈ ts := by rw [(List.append_inj' h rfl).1]; simp
    exact absurd ht (hts t hmem)

theorem parse_ok_iff_accepts (line : Text) : (∃ e, Expr.parse line = .ok e) ↔ Accepts [] false (tokens line) := by
  rw [← (readElements_ok_iff line).1 _ [] (by simp)]
  simp [Expr.parse, Expr.ofTokens, parsing_eq_ok_iff, map_eq_ok_iff]

/-- **The grammar.** A line is an expression exactly when none of its tokens is foreign, every parenthesis of a call has
a match, and the innermost parenthesis open at each comma is that of a call. -/
theorem parse_ok_iff (line : Text) :
    (∃ e, Expr.parse line = .ok e) ↔
      (∀ t ∈ tokens line, t.lexeme.isForeign = false) ∧
        (∀ i, CallParen (tokens line) i → ∃ j, Matches (tokens line) i j) ∧
        ∀ i, lexemeAt (tokens line) i = some (.punctuation .comma) → InsideCall (tokens line) i := by
  have hmatch : (∀ i, CallParen (tokens line) i → ∃ j, Matches (tokens line) i j) ↔
      ∀ i ∈ openParens (tokens line), ¬ CallParen (tokens line) i := by
    constructor
    · exact fun h i hopen hcall => (exists_matches_iff hcall.1).1 (h i hcall) hopen
    · exact fun h i hcall => (exists_matches_iff hcall.1).2 fun hopen => h i hopen hcall
  have hstart : false = true ↔ AfterName (tokens line) ([] : List Token).length := by simp [AfterName]
  rw [parse_ok_iff_accepts, hmatch,
    accepts_suffix_iff (List.nil_append _).symm (fun _ _ _ => eq_nil_of_endOfInput) .nil hstart]
  simp [CommasInside]

end Calculator
