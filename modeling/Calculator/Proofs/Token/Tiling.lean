/-
Tokens tile their line.

`Lexed position afterOperand text ts` says that `ts` are the tokens of a text that begins at a position of its line, the
end of input aside. It is a relation in three steps. Every text has such tokens (`exists_lexed`), and they are those that
are found in it (`Lexed.tokensFrom_eq`), so facts about tokens are proved by induction over it.

- `Lexed.reads`: every token is read where its span begins, and up to its end;
- `Lexed.span_bounds`, `Lexed.ordered`, `Lexed.covered`: spans are not empty, follow one another, and leave out blanks
  alone;
- `tokens_tile`: the tokens of a line are spelled by what stands in their spans, and by nothing longer.
-/
import Calculator.Proofs.Token.Grammar

namespace Calculator

namespace Lexer

/-! ## The tokens of a text -/

/-- the tokens of a text that begins at a position of its line, without the end of input -/
inductive Lexed : Nat → Bool → Text → List Token → Prop where
  | nil (position : Nat) (afterOperand : Bool) : Lexed position afterOperand [] []
  | blank {position : Nat} {afterOperand : Bool} {c : Char} {rest : Text} {ts : List Token} (hc : isBlank c)
      (hrest : Lexed (position + 1) afterOperand rest ts) : Lexed position afterOperand (c :: rest) ts
  | token {position : Nat} {afterOperand : Bool} {w rest : Text} {l : Lexeme} {ts : List Token}
      (hread : Reads afterOperand w rest l) (hrest : Lexed (position + w.length) l.endsOperand rest ts) :
      Lexed position afterOperand (w ++ rest) (⟨l, ⟨position, position + w.length⟩⟩ :: ts)

/-- the end of input, one character wide -/
def endToken (position : Nat) : Token := ⟨.endOfInput, ⟨position, position + 1⟩⟩

section

variable {position : Nat} {afterOperand : Bool} {text : Text} {ts : List Token}

theorem reads_scan {c : Char} (hc : isBlank c = false) {l : Lexeme} {more : Nat} {rest : Text}
    (hscan : scan afterOperand c rest = (l, more)) : Reads afterOperand (c :: rest.take more) (rest.drop more) l := by
  have hle := scan_le afterOperand c rest
  rw [hscan] at hle
  refine ⟨c, rest.take more, rfl, hc, ?_⟩
  rw [List.take_append_drop, hscan, List.length_take_of_le hle]

theorem Reads.length_pos {w rest : Text} {l : Lexeme} (h : Reads afterOperand w rest l) : 0 < w.length := by
  obtain ⟨c, cs, rfl, -⟩ := h
  exact Nat.succ_pos _

theorem exists_lexed (position : Nat) (afterOperand : Bool) (text : Text) :
    ∃ ts, Lexed position afterOperand text ts := by
  fun_induction tokensFrom position afterOperand text with
  | case1 position afterOperand => exact ⟨[], .nil position afterOperand⟩
  | case2 position afterOperand c rest hblank ih =>
    obtain ⟨ts, hlexed⟩ := ih
    exact ⟨ts, .blank hblank hlexed⟩
  | case3 position afterOperand c rest hblank lexeme more hscan stop ih =>
    obtain ⟨ts, hlexed⟩ := ih
    have hread := reads_scan (by simpa using hblank) hscan
    have hle : more ≤ rest.length := by
      have hle := scan_le afterOperand c rest
      rwa [hscan] at hle
    have hstop : stop = position + (c :: rest.take more).length := by
      rw [List.length_cons, List.length_take_of_le hle, Nat.add_comm more, ← Nat.add_assoc]
    rw [hstop] at hlexed
    have htoken := Lexed.token hread hlexed
    rw [List.cons_append, List.take_append_drop] at htoken
    exact ⟨_, htoken⟩

/-- The tokens of a text are what is found in it in front of the end of input. -/
theorem Lexed.tokensFrom_eq (h : Lexed position afterOperand text ts) :
    tokensFrom position afterOperand text = ts ++ [endToken (position + text.length)] := by
  induction h with
  | nil position afterOperand => exact tokensFrom_nil position afterOperand
  | @blank position afterOperand c rest ts hc _ ih =>
    rw [tokensFrom_blank position afterOperand hc, ih, List.length_cons, Nat.add_right_comm, Nat.add_assoc]
  | @token position afterOperand w rest l ts hread _ ih =>
    rw [tokensFrom_reads hread, ih, List.length_append, Nat.add_assoc]
    rfl

/-! ## Spans -/

/-- Every token is read where its span begins, and up to its end. -/
theorem Lexed.reads (h : Lexed position afterOperand text ts) {t : Token} (ht : t ∈ ts) :
    ∃ before w rest after, text = before ++ (w ++ rest) ∧
      t.span = ⟨position + before.length, position + before.length + w.length⟩ ∧ Reads after w rest t.lexeme := by
  induction h with
  | nil => cases ht
  | @blank position afterOperand c rest ts _ _ ih =>
    obtain ⟨before, w, others, after, rfl, hspan, hread⟩ := ih ht
    refine ⟨c :: before, w, others, after, rfl, ?_, hread⟩
    rw [hspan, List.length_cons, Nat.add_right_comm, Nat.add_assoc]
  | @token position afterOperand w rest l ts hread _ ih =>
    rcases List.mem_cons.1 ht with rfl | ht
    · exact ⟨[], w, rest, afterOperand, rfl, rfl, hread⟩
    · obtain ⟨before, v, others, after, rfl, hspan, hread'⟩ := ih ht
      refine ⟨w ++ before, v, others, after, by rw [List.append_assoc], ?_, hread'⟩
      rw [hspan, List.length_append, Nat.add_assoc position]

theorem Lexed.span_bounds (h : Lexed position afterOperand text ts) {t : Token} (ht : t ∈ ts) :
    position ≤ t.span.start ∧ t.span.start < t.span.stop ∧ t.span.stop ≤ position + text.length := by
  obtain ⟨before, w, rest, after, rfl, hspan, hread⟩ := h.reads ht
  have := hread.length_pos
  rw [hspan]
  simp only [List.length_append]
  omega

theorem Lexed.ordered (h : Lexed position afterOperand text ts) :
    ts.Pairwise fun t u => t.span.stop ≤ u.span.start := by
  induction h with
  | nil => exact .nil
  | blank _ _ ih => exact ih
  | token _ hrest ih => exact .cons (fun u hu => (hrest.span_bounds hu).1) ih

/-- A character that no token holds is blank. -/
theorem Lexed.covered (h : Lexed position afterOperand text ts) {i : Nat} {c : Char} (hc : text[i]? = some c)
    (hi : ∀ t ∈ ts, ¬ (t.span.start ≤ position + i ∧ position + i < t.span.stop)) : isBlank c := by
  induction h generalizing i with
  | nil => cases hc
  | @blank position afterOperand d rest ts hd hrest ih =>
    cases i with
    | zero =>
      cases hc
      exact hd
    | succ i =>
      refine ih hc fun t ht => ?_
      rw [Nat.add_assoc, Nat.add_comm 1 i]
      exact hi t ht
  | @token position afterOperand w rest l ts hread hrest ih =>
    obtain ⟨hhead, hrestSpans⟩ := List.forall_mem_cons.1 hi
    have hle : w.length ≤ i := by
      by_contra hlt
      exact hhead ⟨Nat.le_add_right _ _, Nat.add_lt_add_left (Nat.lt_of_not_le hlt) _⟩
    obtain ⟨j, rfl⟩ := Nat.exists_eq_add_of_le hle
    refine @ih j ?_ fun t ht => ?_
    · rw [List.getElem?_append_right hle, Nat.add_sub_cancel_left] at hc
      exact hc
    · rw [Nat.add_assoc]
      exact hrestSpans t ht

end

/-! ## Single tokens -/

section

variable {afterOperand : Bool} {w rest : Text} {l : Lexeme} (h : Reads afterOperand w rest l)

include h

theorem Reads.spelling : Spelling w l := by
  obtain ⟨c, cs, rfl, hc, hscan⟩ := h
  have hspelling : Spelling (c :: (cs ++ rest).take (scan afterOperand c (cs ++ rest)).2) _ := spelling_of_scan hc
  rwa [hscan, List.take_left] at hspelling

/-- No longer text would spell a token, but for a literal behind a minus. -/
theorem Reads.longest {more others : Text} (hrest : rest = more ++ others) {l' : Lexeme}
    (hspelling : Spelling (w ++ more) l') :
    more = [] ∨ l = .operator .subtract ∧ ∃ value radix, l' = .number value radix := by
  obtain ⟨c, cs, rfl, -, hscan⟩ := h
  rw [List.cons_append] at hspelling
  have hlongest := length_le_scan hspelling afterOperand others
  rw [List.append_assoc, ← hrest, hscan] at hlongest
  refine hlongest.imp_left fun hle => ?_
  rw [List.length_append] at hle
  exact List.length_eq_zero_iff.1 (Nat.eq_zero_of_le_zero (Nat.le_of_add_le_add_left hle))

/-- What could be one token with the next character is none, but for a literal behind a minus. -/
theorem Reads.not_spelling_snoc {c : Char} (hc : c ∈ rest.head?) {l' : Lexeme} (hspelling : Spelling (w ++ [c]) l') :
    l = .operator .subtract ∧ ∃ value radix, l' = .number value radix := by
  obtain ⟨others, hrest⟩ := List.head?_eq_some_iff.1 hc
  have hnext : rest = [c] ++ others := hrest
  rcases h.longest hnext hspelling with hempty | hminus
  · cases hempty
  · exact hminus

end

theorem Reads.name_ends {afterOperand : Bool} {w rest : Text} {name : String}
    (h : Reads afterOperand w rest (.name name)) {c : Char} (hc : c ∈ rest.head?) : isNamePart c = false := by
  rw [← Bool.not_eq_true]
  intro hpart
  have hlonger : ∃ l, Spelling (w ++ [c]) l := by
    generalize hl : Lexeme.name name = l at h
    cases h.spelling with
    | name hw =>
      obtain ⟨d, ds, rfl, hd, hds, -⟩ := hw
      have hds' : ∀ e ∈ ds ++ [c], isNamePart e := by
        intro e he
        rcases List.mem_append.1 he with he | he
        · exact hds e he
        · rwa [List.mem_singleton.1 he]
      by_cases hlet : String.ofList (d :: (ds ++ [c])) = "let"
      · refine ⟨.letKeyword, ?_⟩
        rw [List.cons_append, ← String.toList_ofList (l := d :: (ds ++ [c])), hlet]
        exact .keyword
      · exact ⟨_, .name ⟨d, ds ++ [c], rfl, hd, hds', hlet⟩⟩
    | _ => cases hl
  obtain ⟨l, hl⟩ := hlonger
  cases (h.not_spelling_snoc hc hl).1

theorem digits?_eq_none {radix : Radix} (hradix : radix ≠ .decimal) {rest : Text}
    (hrest : ∀ c ∈ rest.head?, radix.isDigit c = false) : digits? radix rest = none := by
  have hempty : rest.takeWhile radix.isDigit = [] := by
    cases rest with
    | nil => rfl
    | cons c rest => exact List.takeWhile_cons_of_neg (by simp [hrest c rfl])
  unfold digits?
  rw [hempty]
  split <;> simp [hradix]

theorem scan_mark {radix : Radix} (hradix : radix ≠ .decimal) {c : Char} {cs rest : Text} (hmark : radix.mark = c :: cs)
    (hrest : ∀ c ∈ rest.head?, radix.isDigit c = false) (afterOperand : Bool) :
    scan afterOperand c (cs ++ rest) = (.invalid radix.mark, cs.length) := by
  have hdigits := digits?_eq_none hradix hrest
  cases radix with
  | decimal => exact absurd rfl hradix
  | hexadecimal =>
    cases hmark
    simp only [scan, List.singleton_append, literal?, hdigits, Option.map_none]
    rw [if_neg (by decide), if_neg (by simp)]
    rfl
  | binary =>
    cases hmark
    simp only [scan, List.singleton_append, literal?, hdigits, Option.map_none]
    rw [if_neg (by decide), if_neg (by simp)]
    rfl

/-- The mark of a radix without a digit behind it is read as one token. -/
theorem Reads.eq_mark {afterOperand : Bool} {w rest others : Text} {l : Lexeme} (h : Reads afterOperand w rest l)
    {radix : Radix} (hradix : radix ≠ .decimal) (htext : w ++ rest = radix.mark ++ others)
    (hothers : ∀ c ∈ others.head?, radix.isDigit c = false) : l = .invalid radix.mark ∧ w = radix.mark := by
  obtain ⟨c, cs, rfl, -, hscan⟩ := h
  obtain ⟨d, ds, hmark⟩ : ∃ d ds, radix.mark = d :: ds := by
    cases radix with
    | decimal => exact absurd rfl hradix
    | _ => exact ⟨_, _, rfl⟩
  have hwhole := scan_mark hradix hmark hothers afterOperand
  rw [hmark, List.cons_append, List.cons_append] at htext
  obtain ⟨rfl, htail⟩ := List.cons.inj htext
  rw [← htail, hscan] at hwhole
  obtain ⟨hl, hlength⟩ := Prod.mk.inj hwhole
  refine ⟨hl, ?_⟩
  rw [hmark, (List.append_inj htail hlength).1]

end Lexer

/-! ## The tokens of a line -/

open Lexer in
/-- how tokens lie on their line -/
structure Tiling (source : Text) (ts : List Token) : Prop where
  inside : ∀ t ∈ ts, t.span.start < t.span.stop ∧ t.span.stop ≤ source.length
  ordered : ts.Pairwise fun t u => t.span.stop ≤ u.span.start
  /-- only blanks are left out -/
  covered : ∀ i c, source[i]? = some c → (∀ t ∈ ts, ¬ (t.span.start ≤ i ∧ i < t.span.stop)) → isBlank c
  /-- no token begins or ends with a blank, or has one inside -/
  noBlank : ∀ t ∈ ts, ∀ c ∈ t.span.text source, isBlank c = false
  spelled : ∀ t ∈ ts, Spelling (t.span.text source) t.lexeme
  /-- no longer text spells a token, but for a literal behind a minus -/
  longest : ∀ t ∈ ts, ∀ more rest l, source.drop t.span.stop = more ++ rest → Spelling (t.span.text source ++ more) l →
    more = [] ∨ t.lexeme = .operator .subtract ∧ ∃ value radix, l = .number value radix

open Lexer in
/-- how a token ends in front of the next character of its line -/
structure Maximal (source : Text) (t : Token) : Prop where
  name : ∀ n, t.lexeme = .name n → ∀ c ∈ source[t.span.stop]?, isNamePart c = false
  literal : ∀ value radix, t.lexeme = .number value radix →
    ∀ c ∈ source[t.span.stop]?, ∀ value' radix', ¬ Spelling (t.span.text source ++ [c]) (.number value' radix')
  operator : ∀ op, t.lexeme = .operator op →
    ∀ c ∈ source[t.span.stop]?, ∀ op' : Operator, op'.symbol ≠ t.span.text source ++ [c]
  /-- the mark of a radix is one token, if no digit stands behind it -/
  mark : ∀ (radix : Radix) (rest : Text), radix ≠ .decimal → source.drop t.span.start = radix.mark ++ rest →
    (∀ c ∈ rest.head?, radix.isDigit c = false) → t.lexeme = .invalid radix.mark ∧ t.span.text source = radix.mark

namespace Lexer

/-- Every token of a line is read in it, behind some text and in front of some other. -/
theorem Lexed.exists_reads {source : Text} {ts : List Token} (h : Lexed 0 false source ts) {t : Token} (ht : t ∈ ts) :
    ∃ after, Reads after (t.span.text source) (source.drop t.span.stop) t.lexeme ∧
      source.drop t.span.start = t.span.text source ++ source.drop t.span.stop := by
  obtain ⟨before, w, rest, after, rfl, hspan, hread⟩ := h.reads ht
  rw [Nat.zero_add] at hspan
  have htext : t.span.text (before ++ (w ++ rest)) = w := by simp [hspan, Span.text, Span.length]
  have hstop : (before ++ (w ++ rest)).drop t.span.stop = rest := by
    rw [hspan, ← List.append_assoc, ← List.length_append, List.drop_left]
  have hstart : (before ++ (w ++ rest)).drop t.span.start = w ++ rest := by
    rw [hspan, List.drop_left]
  rw [htext, hstop, hstart]
  exact ⟨after, hread, rfl⟩

theorem Lexed.tiling {source : Text} {ts : List Token} (h : Lexed 0 false source ts) : Tiling source ts := by
  refine ⟨fun t ht => ?_, h.ordered, fun i c hc hi => ?_, fun t ht => ?_, fun t ht => ?_, fun t ht => ?_⟩
  · simpa using (h.span_bounds ht).2
  · refine h.covered hc fun t ht => ?_
    simpa using hi t ht
  · obtain ⟨_, hread, -⟩ := h.exists_reads ht
    exact hread.spelling.not_isBlank
  · obtain ⟨_, hread, -⟩ := h.exists_reads ht
    exact hread.spelling
  · obtain ⟨_, hread, -⟩ := h.exists_reads ht
    exact fun more rest l hrest hspelling => hread.longest hrest hspelling

theorem Lexed.maximal {source : Text} {ts : List Token} (h : Lexed 0 false source ts) {t : Token} (ht : t ∈ ts) :
    Maximal source t := by
  obtain ⟨after, hread, hhere⟩ := h.exists_reads ht
  have hnext : source[t.span.stop]? = (source.drop t.span.stop).head? := List.head?_drop.symm
  refine ⟨fun n hl c hc => ?_, fun value radix hl c hc value' radix' hspelling => ?_,
    fun op hl c hc op' hop => ?_, fun radix others hradix hdrop hothers => ?_⟩
  · rw [hl] at hread
    exact hread.name_ends (hnext ▸ hc)
  · have hminus := (hread.not_spelling_snoc (hnext ▸ hc) hspelling).1
    rw [hl] at hminus
    cases hminus
  · have hspelling : Spelling (t.span.text source ++ [c]) (.operator op') := hop ▸ Spelling.operator op'
    obtain ⟨-, value, radix, hnumber⟩ := hread.not_spelling_snoc (hnext ▸ hc) hspelling
    cases hnumber
  · exact hread.eq_mark hradix (hhere ▸ hdrop) hothers

end Lexer

/-- What is found in a line stands in front of the end of input. -/
theorem exists_lexed_tokens (line : Text) :
    ∃ ts, Lexer.Lexed 0 false line ts ∧ tokens line = ts ++ [Lexer.endToken line.length] := by
  obtain ⟨ts, hlexed⟩ := Lexer.exists_lexed 0 false line
  have htokens := hlexed.tokensFrom_eq
  rw [Nat.zero_add] at htokens
  exact ⟨ts, hlexed, htokens⟩

/-- **Tokens tile their line.** The tokens of a line are followed by the end of input, right behind the last character.
Their spans follow one another in the line and leave out blanks alone; each is spelled by what stands in its span, and
by nothing longer. -/
theorem tokens_tile (line : Text) :
    ∃ ts, tokens line = ts ++ [⟨.endOfInput, ⟨line.length, line.length + 1⟩⟩] ∧ Tiling line ts ∧
      ∀ t ∈ ts, Maximal line t := by
  obtain ⟨ts, hlexed, htokens⟩ := exists_lexed_tokens line
  exact ⟨ts, htokens, hlexed.tiling, fun t ht => hlexed.maximal ht⟩

end Calculator
