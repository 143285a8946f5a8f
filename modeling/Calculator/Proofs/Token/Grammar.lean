/-
The lexical grammar, and the longest match.

`Spelling w l` says that the text `w` spells the token `l`, whatever stands around it. Reading a token takes a text that
spells it (`spelling_of_scan`), and no longer one would do (`length_le_scan`): a text that begins where a token is read
and spells any token is no longer than what is read. There is one exception, the minus in front of a literal, which is
a token of its own where it is no sign.

- `digits?_sound`, `digits?_longest`: digits are read whole;
- `literal?_sound`, `literal?_longest`: so are literals;
- `spelling_of_scan`, `length_le_scan`: and all tokens.
-/
import Calculator.Proofs.Token.Spelling

namespace Calculator

namespace Lexer

/-! ## Grammar -/

/-- digits of a radix before and after a point, of which the point and the digits behind it may be missing; only in
decimal may those before it be missing -/
inductive Digits (radix : Radix) : Text → Text → Text → Prop where
  | whole {whole : Text} (hne : whole ≠ []) (hwhole : ∀ c ∈ whole, radix.isDigit c) : Digits radix whole [] whole
  | pointed {whole fraction : Text} (hne : whole ≠ [] ∨ radix = .decimal ∧ fraction ≠ [])
      (hwhole : ∀ c ∈ whole, radix.isDigit c) (hfraction : ∀ c ∈ fraction, radix.isDigit c) :
      Digits radix whole fraction (whole ++ '.' :: fraction)

/-- A character that is no token on its own. A point is one too, though a literal begins with it where digits follow. -/
structure Stray (c : Char) : Prop where
  not_blank : isBlank c = false
  not_newline : c ≠ '\n'
  not_digit : c.isDigit = false
  not_nameStart : isNameStart c = false
  not_operator : ∀ op : Operator, op.symbol ≠ [c]
  not_punctuation : ∀ mark : Punctuation, mark.symbol ≠ c

/-- `Spelling w l`: the text `w` spells the token `l`. -/
inductive Spelling : Text → Lexeme → Prop where
  | literal {radix : Radix} {whole fraction w : Text} (h : Digits radix whole fraction w) :
      Spelling (radix.mark ++ w) (.number (radix.value whole fraction) radix)
  | signed {radix : Radix} {whole fraction w : Text} (h : Digits radix whole fraction w) :
      Spelling ('-' :: (radix.mark ++ w)) (.number (-radix.value whole fraction) radix)
  | keyword : Spelling ['l', 'e', 't'] .letKeyword
  | name {w : Text} (h : IsNameText w) : Spelling w (.name (String.ofList w))
  | newline : Spelling ['\n'] .newline
  | operator (op : Operator) : Spelling op.symbol (.operator op)
  | punctuation (mark : Punctuation) : Spelling [mark.symbol] (.punctuation mark)
  /-- the mark of a radix that no digits belong to -/
  | mark {radix : Radix} (h : radix ≠ .decimal) : Spelling radix.mark (.invalid radix.mark)
  | stray {c : Char} (h : Stray c) : Spelling [c] (.invalid [c])

theorem Spelling.eq_symbol {w : Text} {op : Operator} (h : Spelling w (.operator op)) : w = op.symbol := by
  cases h
  rfl

theorem Spelling.eq_punctuation {w : Text} {mark : Punctuation} (h : Spelling w (.punctuation mark)) :
    w = [mark.symbol] := by
  cases h
  rfl

/-! ## Digits -/

theorem Digits.isDigit_or_point {radix : Radix} {whole fraction w : Text} (h : Digits radix whole fraction w) {c : Char}
    (hc : c ∈ w) : radix.isDigit c ∨ c = '.' := by
  cases h with
  | whole _ hwhole => exact .inl (hwhole c hc)
  | pointed _ hwhole hfraction =>
    rcases List.mem_append.1 hc with hc | hc
    · exact .inl (hwhole c hc)
    · rcases List.mem_cons.1 hc with rfl | hc
      · exact .inr rfl
      · exact .inl (hfraction c hc)

theorem not_isDigit_point (radix : Radix) : radix.isDigit '.' = false := by cases radix <;> rfl

/-- What is read as digits is digits. -/
theorem digits?_sound {radix : Radix} {text : Text} {l : Literal} (h : digits? radix text = some l) :
    ∃ w rest, text = w ++ rest ∧ w.length = l.length ∧ l.radix = radix ∧ Digits radix l.whole l.fraction w := by
  have hwhole : ∀ c ∈ text.takeWhile radix.isDigit, radix.isDigit c := fun c hc => List.mem_takeWhile_imp hc
  have happend := List.takeWhile_append_dropWhile (p := radix.isDigit) (l := text)
  unfold digits? at h
  simp only at h
  split at h
  · rename_i rest hdrop
    have hfraction : ∀ c ∈ rest.takeWhile radix.isDigit, radix.isDigit c := fun c hc => List.mem_takeWhile_imp hc
    split at h
    · cases h
    · rename_i hne
      cases h
      refine ⟨_, rest.dropWhile radix.isDigit, ?_, ?_, rfl, .pointed ?_ hwhole hfraction⟩
      · rw [List.append_assoc, List.cons_append, List.takeWhile_append_dropWhile, ← hdrop, happend]
      · simp; omega
      · rw [Bool.and_eq_true, Bool.or_eq_true, List.isEmpty_iff, List.isEmpty_iff, bne_iff_ne, not_and_or, not_or,
          not_not] at hne
        exact hne.imp_right And.symm
  · split at h
    · cases h
    · rename_i hne
      cases h
      exact ⟨_, _, happend.symm, rfl, rfl, .whole (by simpa using hne) hwhole⟩

/-- Digits in front of any text are read, and maybe more. -/
theorem digits?_longest {radix : Radix} {whole fraction w : Text} (h : Digits radix whole fraction w) (rest : Text) :
    ∃ l, digits? radix (w ++ rest) = some l ∧ w.length ≤ l.length := by
  cases h with
  | whole hne hwhole =>
    rw [digits?, List.takeWhile_append_of_pos hwhole, List.dropWhile_append_of_pos hwhole]
    split
    · rw [if_neg (by simp [hne])]
      exact ⟨_, rfl, by simp; omega⟩
    · rw [if_neg (by simp [hne])]
      exact ⟨_, rfl, by simp⟩
  | pointed hne hwhole hfraction =>
    rw [digits?, List.append_assoc, List.cons_append, List.takeWhile_append_of_pos hwhole,
      List.dropWhile_append_of_pos hwhole, List.takeWhile_cons_of_neg (by simp [not_isDigit_point]),
      List.dropWhile_cons_of_neg (by simp [not_isDigit_point]), List.append_nil]
    simp only
    rw [List.takeWhile_append_of_pos hfraction, if_neg]
    · exact ⟨_, rfl, by simp; omega⟩
    · rcases hne with hne | ⟨hradix, hne⟩
      · simp [hne]
      · simp [hradix, hne]

/-! ## Literals -/

theorem literal?_sound {text : Text} {l : Literal} (h : literal? text = some l) :
    ∃ w rest, text = l.radix.mark ++ w ++ rest ∧ (l.radix.mark ++ w).length = l.length ∧
      Digits l.radix l.whole l.fraction w := by
  unfold literal? at h
  split at h
  · obtain ⟨m, hm, rfl⟩ := Option.map_eq_some_iff.1 h
    obtain ⟨w, rest, rfl, hlength, hradix, hdigits⟩ := digits?_sound hm
    refine ⟨w, rest, ?_, ?_, ?_⟩ <;> simp only [hradix]
    · rfl
    · simp [Radix.mark, hlength]
    · exact hdigits
  · obtain ⟨m, hm, rfl⟩ := Option.map_eq_some_iff.1 h
    obtain ⟨w, rest, rfl, hlength, hradix, hdigits⟩ := digits?_sound hm
    refine ⟨w, rest, ?_, ?_, ?_⟩ <;> simp only [hradix]
    · rfl
    · simp [Radix.mark, hlength]
    · exact hdigits
  · obtain ⟨w, rest, rfl, hlength, hradix, hdigits⟩ := digits?_sound h
    refine ⟨w, rest, ?_, ?_, ?_⟩ <;> simp only [hradix]
    · rfl
    · exact hlength
    · exact hdigits

theorem literal?_decimal {c d : Char} {rest : Text} (hx : d ≠ 'x') (hb : d ≠ 'b') :
    literal? (c :: d :: rest) = digits? .decimal (c :: d :: rest) := by
  rw [literal?]
  · rintro others heq
    exact hx (List.cons.inj (List.cons.inj heq).2).1
  · rintro others heq
    exact hb (List.cons.inj (List.cons.inj heq).2).1

/-- A literal of two characters or more is read, and maybe more; a zero could also begin the mark of a radix. -/
theorem literal?_longest {radix : Radix} {whole fraction w : Text} (h : Digits radix whole fraction w)
    (hlength : 2 ≤ (radix.mark ++ w).length) (rest : Text) :
    ∃ l, literal? (radix.mark ++ w ++ rest) = some l ∧ (radix.mark ++ w).length ≤ l.length := by
  obtain ⟨l, hl, hle⟩ := digits?_longest h rest
  cases radix with
  | decimal =>
    rw [Radix.mark, List.nil_append] at hlength ⊢
    rcases w with _ | ⟨c, _ | ⟨d, w⟩⟩
    · exact absurd hlength (by simp)
    · exact absurd hlength (by simp)
    · have hd := h.isDigit_or_point (List.mem_cons_of_mem _ List.mem_cons_self)
      refine ⟨l, ?_, hle⟩
      rw [← hl]
      refine literal?_decimal ?_ ?_
      · rintro rfl
        exact absurd hd (by decide)
      · rintro rfl
        exact absurd hd (by decide)
  | _ =>
    refine ⟨{ l with length := l.length + 2 }, ?_, by simp [Radix.mark]; omega⟩
    rw [Radix.mark, List.append_assoc, List.cons_append, List.cons_append, List.nil_append, literal?, hl]
    rfl

/-! ## Tokens -/

theorem not_isBlank_of_all {w : Text} (h : w.all fun c => !isBlank c) : ∀ c ∈ w, isBlank c = false := by
  simpa using h

/-- No token has a blank in it. -/
theorem Spelling.not_isBlank {w : Text} {l : Lexeme} (h : Spelling w l) : ∀ c ∈ w, isBlank c = false := by
  have hmark : ∀ radix : Radix, ∀ c ∈ radix.mark, isBlank c = false := by
    intro radix
    exact not_isBlank_of_all (by cases radix <;> decide)
  have hdigits : ∀ {radix : Radix} {whole fraction w : Text}, Digits radix whole fraction w →
      ∀ c ∈ radix.mark ++ w, isBlank c = false := by
    intro radix whole fraction w h c hc
    rcases List.mem_append.1 hc with hc | hc
    · exact hmark radix c hc
    · rcases h.isDigit_or_point hc with hc | rfl
      · exact not_isBlank_of_isNamePart (isNamePart_of_isDigit hc)
      · decide
  cases h with
  | literal h => exact hdigits h
  | signed h => exact List.forall_mem_cons.2 ⟨by decide, hdigits h⟩
  | name h =>
    obtain ⟨c, cs, rfl, hc, hcs, -⟩ := h
    refine List.forall_mem_cons.2 ⟨?_, fun d hd => not_isBlank_of_isNamePart (hcs d hd)⟩
    exact not_isBlank_of_isNamePart (isNamePart_of_isNameStart hc)
  | stray h => exact List.forall_mem_singleton.2 h.not_blank
  | keyword => exact not_isBlank_of_all (by decide)
  | newline => exact not_isBlank_of_all (by decide)
  | operator op => exact not_isBlank_of_all (by cases op <;> decide)
  | punctuation mark => exact not_isBlank_of_all (by cases mark <;> decide)
  | @mark radix _ => exact hmark radix

theorem stray_of_symbol? {c : Char} (hblank : isBlank c = false) (hdigit : c.isDigit = false)
    (hstart : isNameStart c = false) (h : symbol? c = none) : Stray c := by
  refine ⟨hblank, ?_, hdigit, hstart, ?_, ?_⟩
  · rintro rfl
    cases h
  · intro op hop
    cases op <;> cases hop <;> cases h
  · intro mark hmark
    subst hmark
    cases mark <;> cases h

theorem spelling_of_symbol? {c : Char} {l : Lexeme} (h : symbol? c = some l) : Spelling [c] l := by
  unfold symbol? at h
  split at h
  case h_17 => cases h
  all_goals cases h
  exacts [.operator .add, .operator .subtract, .operator .multiply, .operator .divide, .operator .modulo,
    .operator .bitAnd, .operator .xor, .operator .bitOr, .operator .leftParen, .operator .rightParen,
    .punctuation .comma, .punctuation .leftBrace, .punctuation .rightBrace, .punctuation .leftBracket,
    .punctuation .rightBracket, .newline]

/-- What is read as a symbol spells it, if it is the beginning of nothing else. -/
theorem spelling_of_symbol {c : Char} {rest : Text} (hblank : isBlank c = false) (hstart : isNameStart c = false)
    (hliteral : literal? (c :: rest) = none) :
    Spelling (c :: rest.take (symbol c rest).2) (symbol c rest).1 := by
  unfold symbol
  split
  · exact .operator .exponent
  · exact @Spelling.mark .hexadecimal (by decide)
  · exact @Spelling.mark .binary (by decide)
  · rename_i hx hb
    cases hsymbol : symbol? c with
    | some l => exact spelling_of_symbol? hsymbol
    | none =>
      refine .stray (stray_of_symbol? hblank ?_ hstart hsymbol)
      -- A digit begins a literal, unless it begins the mark of a radix.
      rw [← Bool.not_eq_true]
      intro hdigit
      have hdigits : Digits .decimal [c] [] [c] := .whole (by simp) (List.forall_mem_singleton.2 hdigit)
      obtain ⟨l, hl, -⟩ := digits?_longest hdigits rest
      rw [literal?] at hliteral
      · exact absurd (hl.symm.trans hliteral) (by simp)
      · intro others heq
        obtain ⟨rfl, rfl⟩ := List.cons.inj heq
        exact hx others rfl rfl
      · intro others heq
        obtain ⟨rfl, rfl⟩ := List.cons.inj heq
        exact hb others rfl rfl

theorem spelling_of_word {c : Char} (hc : isNameStart c) (rest : Text) :
    Spelling (c :: rest.take (word c rest).2) (word c rest).1 := by
  have htake : rest.take (rest.takeWhile isNamePart).length = rest.takeWhile isNamePart :=
    (List.prefix_iff_eq_take.1 (List.takeWhile_prefix _)).symm
  simp only [word, htake]
  split
  · rename_i hlet
    have htext : c :: rest.takeWhile isNamePart = ['l', 'e', 't'] := by
      rw [← String.toList_ofList (l := c :: _), hlet]
      rfl
    rw [htext]
    exact .keyword
  · rename_i hlet
    exact .name ⟨c, _, rfl, hc, fun d hd => List.mem_takeWhile_imp hd, hlet⟩

/-- **What is read as a token spells it.** -/
theorem spelling_of_scan {afterOperand : Bool} {c : Char} {rest : Text} (hblank : isBlank c = false) :
    Spelling (c :: rest.take (scan afterOperand c rest).2) (scan afterOperand c rest).1 := by
  unfold scan
  split
  · rename_i l hl
    obtain ⟨w, others, htext, hlength, hdigits⟩ := literal?_sound hl
    have htake : c :: rest.take (l.length - 1) = l.radix.mark ++ w := by
      rw [← List.take_succ_cons, Nat.sub_add_cancel (literal?_length hl).1, htext, ← hlength, List.take_left]
    rw [htake]
    exact .literal hdigits
  · rename_i hliteral
    split
    · rename_i hc
      exact spelling_of_word hc rest
    · rename_i hstart
      have hsymbol := spelling_of_symbol hblank (by simpa using hstart) hliteral
      split
      · rename_i hsign
        split
        · rename_i l hl
          obtain ⟨w, others, htext, hlength, hdigits⟩ := literal?_sound hl
          rw [hsign.1, htext, ← hlength, List.take_left]
          exact .signed hdigits
        · exact hsymbol
      · exact hsymbol

/-! ## Longest match -/

/-- In front of a literal, a minus is read with the literal, or as an operator. -/
theorem scan_minus {afterOperand : Bool} {rest : Text} {n : Nat} (h : ∀ l, literal? rest = some l → n ≤ l.length) :
    n ≤ (scan afterOperand '-' rest).2 ∨ (scan afterOperand '-' rest).1 = .operator .subtract := by
  have hsymbol : (symbol '-' rest).1 = .operator .subtract := by
    unfold symbol
    split <;> simp_all [symbol?]
  have hliteral : literal? ('-' :: rest) = none := literal?_eq_none (by simp)
  simp only [scan, hliteral, show isNameStart '-' = false by decide, Bool.false_eq_true, if_false]
  split
  · split
    · rename_i l hl
      exact .inl (h l hl)
    · exact .inr hsymbol
  · exact .inr hsymbol

theorem length_le_word {c : Char} {w : Text} (hc : isNameStart c) (hw : ∀ d ∈ w, isNamePart d) (afterOperand : Bool)
    (rest : Text) : w.length ≤ (scan afterOperand c (w ++ rest)).2 := by
  have hliteral : literal? (c :: (w ++ rest)) = none := by
    refine literal?_eq_none fun d hd => ?_
    cases hd
    exact not_isDigit_of_isNameStart hc
  simp only [scan, hliteral, hc, if_true, word, List.takeWhile_append_of_pos hw, List.length_append]
  omega

/-- **Longest match.** A text that spells a token is read up to its end at least where it begins a token, unless it is a
literal with a sign of which only the minus is read. -/
theorem length_le_scan {c : Char} {w : Text} {l : Lexeme} (h : Spelling (c :: w) l) (afterOperand : Bool) (rest : Text) :
    w.length ≤ (scan afterOperand c (w ++ rest)).2 ∨
      (scan afterOperand c (w ++ rest)).1 = .operator .subtract ∧ ∃ value radix, l = .number value radix := by
  -- Where a token is read, at least one character is.
  by_cases hw : w = []
  · exact .inl (by simp [hw])
  have hlength : 2 ≤ (c :: w).length := Nat.succ_le_succ (List.length_pos_iff.2 hw)
  generalize htext : c :: w = text at h hlength
  cases h with
  | literal hdigits =>
    obtain ⟨l, hl, hle⟩ := literal?_longest hdigits hlength rest
    rw [← htext] at hl hle
    refine .inl ?_
    rw [scan, ← List.cons_append, hl]
    simp only [List.length_cons] at hle ⊢
    omega
  | @signed radix whole fraction v hdigits =>
    obtain ⟨rfl, rfl⟩ := List.cons.inj htext
    refine (scan_minus fun l hl => ?_).imp_right fun hminus => ⟨hminus, _, _, rfl⟩
    by_cases hshort : 2 ≤ (radix.mark ++ v).length
    · obtain ⟨l', hl', hle⟩ := literal?_longest hdigits hshort rest
      rw [hl] at hl'
      cases hl'
      exact hle
    · have := (literal?_length hl).1
      omega
  | keyword =>
    cases htext
    exact .inl (length_le_word (by decide) (List.all_eq_true.1 (by decide)) afterOperand rest)
  | name hname =>
    obtain ⟨d, ds, htext', hd, hds, -⟩ := hname
    cases htext.trans htext'
    exact .inl (length_le_word hd hds afterOperand rest)
  | operator op =>
    have hop : op = .exponent := by cases op <;> first | rfl | simp [Operator.symbol] at hlength
    subst hop
    cases htext
    have hscan : scan afterOperand '*' ('*' :: rest) = (.operator .exponent, 1) := by
      rw [scan, literal?_eq_none (by simp), if_neg (by decide), if_neg (by simp)]
      rfl
    exact .inl (hscan ▸ Nat.le_refl 1)
  | @mark radix hradix =>
    have hmark : ∃ d, radix.mark = ['0', d] ∧ (symbol '0' (d :: rest)).2 = 1 ∧
        ∀ l, literal? ('0' :: d :: rest) = some l → 2 ≤ l.length := by
      cases radix with
      | decimal => exact absurd rfl hradix
      | hexadecimal =>
        refine ⟨'x', rfl, rfl, fun l hl => ?_⟩
        obtain ⟨m, -, rfl⟩ := Option.map_eq_some_iff.1 hl
        exact Nat.le_add_left 2 m.length
      | binary =>
        refine ⟨'b', rfl, rfl, fun l hl => ?_⟩
        obtain ⟨m, -, rfl⟩ := Option.map_eq_some_iff.1 hl
        exact Nat.le_add_left 2 m.length
    obtain ⟨d, hd, hsymbol, hliteral⟩ := hmark
    cases htext.trans hd
    refine .inl ?_
    simp only [scan, List.singleton_append, List.length_singleton]
    split
    · rename_i l hl
      exact Nat.le_sub_of_add_le (hliteral l hl)
    · rw [if_neg (by decide), if_neg (by simp), hsymbol]
  | newline => simp at hlength
  | punctuation mark => simp at hlength
  | stray _ => simp at hlength

end Lexer

end Calculator
