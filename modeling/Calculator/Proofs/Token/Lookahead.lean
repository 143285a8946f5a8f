/-
What a token depends on behind it.

Reading a token looks one character further, to see that it does not go on, and behind a minus it looks for a literal.
So a token is read the same in front of another text (`Lookalike`) that begins with the same character, or with a
blank, and begins with a literal only if the first one does.

- `digits?_congr`, `literal?_congr`: literals see only the character behind them;
- `symbol_congr`: so do symbols, and what is no literal;
- `Reads.congr`: tokens are read the same in front of texts that look alike;
- `Reads.lookalike`: texts that begin with the same token look alike.
-/
import Calculator.Proofs.Token.Tiling

namespace Calculator

namespace Lexer

/-- Behind a token, `rest'` looks like `rest`. -/
structure Lookalike (rest rest' : Text) : Prop where
  head : ∀ c ∈ rest'.head?, isBlank c ∨ c ∈ rest.head?
  literal : literal? rest = none → literal? rest' = none

section

variable {w rest rest' : Text} {c : Char}

/-- What stands behind a blank looks like everything. -/
theorem lookalike_of_blank (h : ∀ c ∈ rest'.head?, isBlank c) : Lookalike rest rest' := by
  refine ⟨fun c hc => .inl (h c hc), fun _ => literal?_eq_none fun c hc => ⟨?_, ?_⟩⟩
  · rw [← Bool.not_eq_true]
    intro hdigit
    have hpart : isNamePart c := @isNamePart_of_isDigit .decimal c hdigit
    exact absurd (h c hc) (by simp [not_isBlank_of_isNamePart hpart])
  · rintro rfl
    exact absurd (h '.' hc) (by decide)

/-- A character that is no blank stands behind only if it did before. -/
theorem head_of_not_blank (hahead : ∀ c ∈ rest'.head?, isBlank c ∨ c ∈ rest.head?) (hc : c ∈ rest'.head?)
    (hblank : isBlank c = false) : ∃ others, rest = c :: others := by
  rcases hahead c hc with h | h
  · rw [hblank] at h
    cases h
  · exact List.head?_eq_some_iff.1 h

/-! ## Digits -/

/-- Digits are read whole, if the next character is none of them. -/
theorem Digits.digits?_eq {radix : Radix} {whole fraction : Text} (h : Digits radix whole fraction w)
    (hstop : ∀ c ∈ rest.head?, ∀ whole' fraction', ¬ Digits radix whole' fraction' (w ++ [c])) :
    digits? radix (w ++ rest) = some ⟨radix, whole, fraction, w.length⟩ := by
  cases h with
  | whole hne hwhole =>
    have hdigit : ∀ c ∈ rest.head?, radix.isDigit c = false := by
      intro c hc
      rw [← Bool.not_eq_true]
      intro hdigit
      refine hstop c hc _ _ (.whole (by simp) fun d hd => ?_)
      rcases List.mem_append.1 hd with hd | hd
      · exact hwhole d hd
      · rwa [List.mem_singleton.1 hd]
    have hpoint : ∀ others, rest ≠ '.' :: others := by
      rintro others rfl
      exact hstop '.' rfl _ _ (.pointed (.inl hne) hwhole (by simp))
    obtain ⟨htake, hdrop⟩ := takeWhile_append_stop hwhole hdigit
    rw [digits?, htake, hdrop]
    split
    · exact absurd rfl (hpoint _)
    · rw [if_neg (by simp [hne])]
  | pointed hne hwhole hfraction =>
    have hdigit : ∀ c ∈ rest.head?, radix.isDigit c = false := by
      intro c hc
      rw [← Bool.not_eq_true]
      intro hdigit
      refine hstop c hc whole (fraction ++ [c]) ?_
      rw [List.append_assoc, List.cons_append]
      refine .pointed (hne.imp_right fun h => ⟨h.1, by simp⟩) hwhole fun d hd => ?_
      rcases List.mem_append.1 hd with hd | hd
      · exact hfraction d hd
      · rwa [List.mem_singleton.1 hd]
    have hpoint : ∀ c ∈ ('.' :: (fraction ++ rest)).head?, radix.isDigit c = false := by
      intro c hc
      cases hc
      exact not_isDigit_point radix
    obtain ⟨htake, hdrop⟩ := takeWhile_append_stop hwhole hpoint
    obtain ⟨htake', -⟩ := takeWhile_append_stop hfraction hdigit
    rw [List.append_assoc, List.cons_append, digits?, htake, hdrop]
    simp only [htake']
    rw [if_neg]
    · simp only [List.length_append, List.length_cons, Nat.add_assoc, Nat.add_comm 1]
    · rcases hne with hne | ⟨rfl, hne⟩
      · simp [hne]
      · simp [hne]

/-- Digits see only the character behind them. -/
theorem digits?_congr {radix : Radix} {l : Literal} (h : digits? radix (w ++ rest) = some l)
    (hlength : l.length = w.length) (hahead : ∀ c ∈ rest'.head?, isBlank c ∨ c ∈ rest.head?) :
    digits? radix (w ++ rest') = some l := by
  obtain ⟨v, others, htext, hv, hradix, hdigits⟩ := digits?_sound h
  obtain ⟨rfl, rfl⟩ := List.append_inj htext (hlength.symm.trans hv.symm)
  have hstop : ∀ c ∈ rest'.head?, ∀ whole fraction, ¬ Digits radix whole fraction (w ++ [c]) := by
    intro c hc whole fraction hmore
    have hlast : radix.isDigit c ∨ c = '.' := hmore.isDigit_or_point (by simp)
    have hblank : isBlank c = false := by
      rcases hlast with hdigit | rfl
      · exact not_isBlank_of_isNamePart (isNamePart_of_isDigit hdigit)
      · decide
    obtain ⟨others, rfl⟩ := head_of_not_blank hahead hc hblank
    obtain ⟨l', hl', hle⟩ := digits?_longest hmore others
    rw [List.append_assoc, List.singleton_append, h] at hl'
    cases hl'
    rw [List.length_append, List.length_singleton, hlength] at hle
    exact absurd hle (by omega)
  rw [hdigits.digits?_eq hstop, hv, ← hradix]

/-! ## Literals -/

/-- What begins with no mark of a radix is read in decimal. -/
theorem literal?_eq_digits? {text : Text} (h : ∀ d others, text = '0' :: d :: others → d ≠ 'x' ∧ d ≠ 'b') :
    literal? text = digits? .decimal text := by
  rw [literal?]
  · exact fun others heq => (h _ others heq).1 rfl
  · exact fun others heq => (h _ others heq).2 rfl

/-- A decimal literal begins with no mark of a radix. -/
theorem ne_mark_of_literal? {text : Text} {l : Literal} (h : literal? text = some l) (hradix : l.radix = .decimal)
    (d : Char) (others : Text) (htext : text = '0' :: d :: others) : d ≠ 'x' ∧ d ≠ 'b' := by
  subst htext
  constructor
  · rintro rfl
    obtain ⟨m, hm, rfl⟩ := Option.map_eq_some_iff.1 h
    obtain ⟨_, _, -, -, hm, -⟩ := digits?_sound hm
    exact absurd (hm.symm.trans hradix) (by decide)
  · rintro rfl
    obtain ⟨m, hm, rfl⟩ := Option.map_eq_some_iff.1 h
    obtain ⟨_, _, -, -, hm, -⟩ := digits?_sound hm
    exact absurd (hm.symm.trans hradix) (by decide)

theorem not_isBlank_mark {d : Char} (h : d = 'x' ∨ d = 'b') : isBlank d = false := by
  rcases h with rfl | rfl <;> decide

/-- Literals see only the character behind them. -/
theorem literal?_congr {l : Literal} (h : literal? (w ++ rest) = some l) (hlength : l.length = w.length)
    (hahead : ∀ c ∈ rest'.head?, isBlank c ∨ c ∈ rest.head?) : literal? (w ++ rest') = some l := by
  obtain ⟨v, others, htext, hv, hdigits⟩ := literal?_sound h
  obtain ⟨rfl, rfl⟩ := List.append_inj htext (hlength.symm.trans hv.symm)
  cases hradix : l.radix with
  | decimal =>
    have hmark := ne_mark_of_literal? h hradix
    rw [hradix] at h hlength hmark hdigits
    rw [Radix.mark, List.nil_append] at h hlength hmark ⊢
    rw [literal?_eq_digits? hmark] at h
    rw [literal?_eq_digits?, digits?_congr h hlength hahead]
    -- A mark in the new text would stand in the digits, or begin with a zero that had it behind it before.
    intro d others heq
    rw [← not_or]
    intro hd
    rcases v with _ | ⟨c, _ | ⟨d', v⟩⟩
    · exact absurd hlength (Nat.ne_of_gt (literal?_length (literal?_eq_digits? hmark ▸ h)).1)
    · obtain ⟨rfl, rfl⟩ := List.cons.inj heq
      obtain ⟨more, rfl⟩ := head_of_not_blank hahead rfl (not_isBlank_mark hd)
      exact (not_or.2 (hmark d more rfl)) hd
    · obtain ⟨-, heq⟩ := List.cons.inj heq
      obtain ⟨rfl, -⟩ := List.cons.inj heq
      have hdigit := hdigits.isDigit_or_point (List.mem_cons_of_mem c List.mem_cons_self)
      rcases hd with rfl | rfl <;> exact absurd hdigit (by decide)
  | _ =>
    rw [hradix] at h hlength
    rw [Radix.mark, List.append_assoc, List.cons_append, List.cons_append, List.nil_append] at h ⊢
    rw [Radix.mark] at hlength
    obtain ⟨m, hm, rfl⟩ := Option.map_eq_some_iff.1 h
    rw [literal?, digits?_congr hm (Nat.add_right_cancel hlength) hahead]
    rfl

/-! ## Symbols -/

/-- A digit begins a literal, unless it begins the mark of a radix. -/
theorem exists_literal? {rest : Text} (hdigit : c.isDigit)
    (hmark : ∀ d others, c :: rest = '0' :: d :: others → d ≠ 'x' ∧ d ≠ 'b') : ∃ l, literal? (c :: rest) = some l := by
  have hdigits : Digits .decimal [c] [] [c] := .whole (by simp) (List.forall_mem_singleton.2 hdigit)
  obtain ⟨l, hl, -⟩ := digits?_longest hdigits rest
  exact ⟨l, (literal?_eq_digits? hmark).trans hl⟩

/-- A point begins a literal exactly if a digit stands behind it. -/
theorem literal?_point_eq_none_iff {rest : Text} :
    literal? ('.' :: rest) = none ↔ ∀ c ∈ rest.head?, c.isDigit = false := by
  rw [literal?_eq_digits? (by simp), digits?]
  cases rest with
  | nil => simp [Radix.isDigit]
  | cons c rest => by_cases hc : c.isDigit <;> simp [Radix.isDigit, hc]

theorem digits?_eq_none_iff {radix : Radix} (hradix : radix ≠ .decimal) {rest : Text} :
    digits? radix rest = none ↔ ∀ c ∈ rest.head?, radix.isDigit c = false := by
  refine ⟨fun h c hc => ?_, digits?_eq_none hradix⟩
  obtain ⟨others, rfl⟩ := List.head?_eq_some_iff.1 hc
  rw [← Bool.not_eq_true]
  intro hdigit
  have hdigits : Digits radix [c] [] [c] := .whole (by simp) (List.forall_mem_singleton.2 hdigit)
  obtain ⟨l, hl, -⟩ := digits?_longest hdigits others
  exact absurd (hl.symm.trans h) (by simp)

/-- That no digit stands behind is kept by what looks alike. -/
theorem not_isDigit_congr {radix : Radix} (h : ∀ c ∈ rest.head?, radix.isDigit c = false)
    (hahead : ∀ c ∈ rest'.head?, isBlank c ∨ c ∈ rest.head?) : ∀ c ∈ rest'.head?, radix.isDigit c = false := by
  intro c hc
  rw [← Bool.not_eq_true]
  intro hdigit
  obtain ⟨others, rfl⟩ := head_of_not_blank hahead hc (not_isBlank_of_isNamePart (isNamePart_of_isDigit hdigit))
  exact absurd hdigit (by simp [h c rfl])

theorem symbol_of_not_digit (hdigit : c.isDigit = false) (hstar : c = '*' → rest.head? ≠ some '*') :
    symbol c rest = ((symbol? c).getD (.invalid [c]), 0) := by
  unfold symbol
  split
  · exact absurd rfl (hstar rfl)
  · cases hdigit
  · cases hdigit
  · rfl

/-- What is no literal stays none, and symbols see only the character behind them. -/
theorem symbol_congr {cs : Text} {l : Lexeme} (hnone : literal? (c :: (cs ++ rest)) = none)
    (h : symbol c (cs ++ rest) = (l, cs.length)) (hahead : ∀ c ∈ rest'.head?, isBlank c ∨ c ∈ rest.head?) :
    literal? (c :: (cs ++ rest')) = none ∧ symbol c (cs ++ rest') = (l, cs.length) := by
  have hmark : ∀ {radix : Radix}, radix ≠ .decimal → digits? radix rest = none → digits? radix rest' = none := by
    intro radix hradix hdigits
    rw [digits?_eq_none_iff hradix] at hdigits ⊢
    exact not_isDigit_congr hdigits hahead
  unfold symbol at h
  split at h
  · rename_i others heq
    obtain ⟨rfl, hlength⟩ := Prod.mk.inj h
    obtain ⟨d, rfl⟩ := List.length_eq_one_iff.1 hlength.symm
    obtain ⟨rfl, -⟩ := List.cons.inj heq
    exact ⟨literal?_eq_none (by simp), rfl⟩
  · rename_i others heq
    obtain ⟨rfl, hlength⟩ := Prod.mk.inj h
    obtain ⟨d, rfl⟩ := List.length_eq_one_iff.1 hlength.symm
    obtain ⟨rfl, -⟩ := List.cons.inj heq
    refine ⟨?_, rfl⟩
    rw [List.singleton_append, literal?, Option.map_eq_none_iff] at hnone ⊢
    exact hmark (by decide) hnone
  · rename_i others heq
    obtain ⟨rfl, hlength⟩ := Prod.mk.inj h
    obtain ⟨d, rfl⟩ := List.length_eq_one_iff.1 hlength.symm
    obtain ⟨rfl, -⟩ := List.cons.inj heq
    refine ⟨?_, rfl⟩
    rw [List.singleton_append, literal?, Option.map_eq_none_iff] at hnone ⊢
    exact hmark (by decide) hnone
  · rename_i c _ _ hexponent hhexadecimal hbinary
    obtain ⟨rfl, hlength⟩ := Prod.mk.inj h
    obtain rfl := List.length_eq_zero_iff.1 hlength.symm
    rw [List.nil_append] at hnone hexponent hhexadecimal hbinary ⊢
    -- A digit would begin a literal: what could belong to a mark has been read before.
    have hdigit : c.isDigit = false := by
      rw [← Bool.not_eq_true]
      intro hdigit
      have hmark : ∀ d others, c :: rest = '0' :: d :: others → d ≠ 'x' ∧ d ≠ 'b' := by
        intro d others heq
        obtain ⟨rfl, rfl⟩ := List.cons.inj heq
        exact ⟨fun h => hhexadecimal others rfl (h ▸ rfl), fun h => hbinary others rfl (h ▸ rfl)⟩
      obtain ⟨l, hl⟩ := exists_literal? hdigit hmark
      exact absurd (hnone.symm.trans hl) (by simp)
    have hstar : c = '*' → rest'.head? ≠ some '*' := by
      intro hc hhead
      obtain ⟨others, rfl⟩ := head_of_not_blank hahead hhead (by decide)
      exact hexponent others hc rfl
    refine ⟨?_, symbol_of_not_digit hdigit hstar⟩
    by_cases hpoint : c = '.'
    · subst hpoint
      rw [literal?_point_eq_none_iff] at hnone ⊢
      exact @not_isDigit_congr rest rest' .decimal hnone hahead
    · refine literal?_eq_none fun d hd => ?_
      cases hd
      exact ⟨hdigit, hpoint⟩

/-! ## Tokens -/

/-- What has been taken whole is taken whole again, in front of a character that is a blank or the same. -/
theorem takeWhile_congr {p : Char → Bool} (hp : ∀ c, p c → isBlank c = false) {cs : Text}
    (h : ((cs ++ rest).takeWhile p).length = cs.length) (hahead : ∀ c ∈ rest'.head?, isBlank c ∨ c ∈ rest.head?) :
    (cs ++ rest).takeWhile p = cs ∧ (cs ++ rest').takeWhile p = cs := by
  have htake : (cs ++ rest).takeWhile p = cs := List.append_inj_left List.takeWhile_append_dropWhile h
  have hcs : ∀ d ∈ cs, p d := fun d hd => List.mem_takeWhile_imp (htake ▸ hd)
  refine ⟨htake, (takeWhile_append_stop hcs fun d hd => ?_).1⟩
  rw [← Bool.not_eq_true]
  intro hd'
  obtain ⟨others, rfl⟩ := head_of_not_blank hahead hd (hp d hd')
  rw [List.takeWhile_append_of_pos hcs, List.takeWhile_cons_of_pos hd'] at htake
  exact absurd htake (by simp)

/-- Words see only the character behind them. -/
theorem word_congr {cs : Text} {l : Lexeme} (h : word c (cs ++ rest) = (l, cs.length))
    (hahead : ∀ c ∈ rest'.head?, isBlank c ∨ c ∈ rest.head?) : word c (cs ++ rest') = (l, cs.length) := by
  obtain ⟨htake, htake'⟩ := takeWhile_congr (fun _ => not_isBlank_of_isNamePart) (Prod.mk.inj h).2 hahead
  rw [word, htake] at h
  rw [word, htake']
  exact h

end

/-- **Tokens are read the same in front of texts that look alike.** -/
theorem Reads.congr {afterOperand : Bool} {w rest rest' : Text} {l : Lexeme} (h : Reads afterOperand w rest l)
    (halike : Lookalike rest rest') : Reads afterOperand w rest' l := by
  obtain ⟨c, cs, rfl, hc, hscan⟩ := h
  refine ⟨c, cs, rfl, hc, ?_⟩
  unfold scan at hscan
  split at hscan
  · rename_i m hm
    have hlength : m.length = (c :: cs).length := by
      rw [List.length_cons, ← (Prod.mk.inj hscan).2, Nat.sub_add_cancel (literal?_length hm).1]
    rw [← List.cons_append] at hm
    rw [scan, ← List.cons_append, literal?_congr hm hlength halike.head]
    exact hscan
  · rename_i hnone
    split at hscan
    · rename_i hstart
      have hnone' : literal? (c :: (cs ++ rest')) = none := by
        refine literal?_eq_none fun d hd => ?_
        cases hd
        exact not_isDigit_of_isNameStart hstart
      rw [scan, hnone', if_pos hstart]
      exact word_congr hscan halike.head
    · rename_i hstart
      rw [scan]
      split at hscan
      · rename_i hsign
        split at hscan
        · rename_i m hm
          have hlength : m.length = cs.length := (Prod.mk.inj hscan).2
          rw [hsign.1, literal?_eq_none (by simp), if_neg (by decide), if_pos ⟨rfl, hsign.2⟩,
            literal?_congr hm hlength halike.head]
          exact hscan
        · rename_i hm
          obtain ⟨hnone', hsymbol⟩ := symbol_congr hnone hscan halike.head
          obtain ⟨rfl, hafter⟩ := hsign
          have hcs : cs = [] := by
            rw [symbol_of_not_digit (by decide) (by simp)] at hscan
            exact List.length_eq_zero_iff.1 (Prod.mk.inj hscan).2.symm
          subst hcs
          rw [hnone', if_neg (by decide), if_pos ⟨rfl, hafter⟩]
          rw [List.nil_append, halike.literal hm]
          exact hsymbol
      · rename_i hsign
        obtain ⟨hnone', hsymbol⟩ := symbol_congr hnone hscan halike.head
        rw [hnone', if_neg hstart, if_neg hsign]
        exact hsymbol

section

variable {afterOperand : Bool} {w rest rest' : Text} {l : Lexeme}

theorem word_ne_number (c : Char) (rest : Text) (value : Binary64) (radix : Radix) :
    (word c rest).1 ≠ .number value radix := by
  unfold word
  simp only
  split <;> simp

theorem symbol_ne_number (c : Char) (rest : Text) (value : Binary64) (radix : Radix) :
    (symbol c rest).1 ≠ .number value radix := by
  unfold symbol
  split
  · simp
  · simp
  · simp
  · unfold symbol?
    split <;> simp

/-- A token begins with a literal exactly if it is a number without sign. -/
theorem Reads.literal?_eq_none_iff (h : Reads afterOperand w rest l) :
    literal? (w ++ rest) = none ↔ ∀ value radix, l = .number value radix → w.head? = some '-' := by
  obtain ⟨c, cs, rfl, -, hscan⟩ := h
  rw [List.cons_append, List.head?_cons]
  unfold scan at hscan
  split at hscan
  · rename_i m hm
    refine iff_of_false (by simp [hm]) fun hnumber => ?_
    obtain rfl := Option.some.inj (hnumber _ _ (Prod.mk.inj hscan).1.symm)
    rw [literal?_eq_none (by simp)] at hm
    cases hm
  · rename_i hnone
    refine iff_of_true hnone fun value radix hl => ?_
    subst hl
    split at hscan
    · exact absurd (congrArg Prod.fst hscan) (word_ne_number c _ value radix)
    · split at hscan
      · rename_i hsign
        exact congrArg some hsign.1
      · exact absurd (congrArg Prod.fst hscan) (symbol_ne_number c _ value radix)

/-- **Texts that begin with the same token look alike.** -/
theorem Reads.lookalike (h : Reads afterOperand w rest l) (h' : Reads afterOperand w rest' l) :
    Lookalike (w ++ rest) (w ++ rest') := by
  refine ⟨fun c hc => .inr ?_, fun hnone => h'.literal?_eq_none_iff.2 (h.literal?_eq_none_iff.1 hnone)⟩
  obtain ⟨d, ds, rfl, -⟩ := h
  exact hc

end

end Lexer

end Calculator
