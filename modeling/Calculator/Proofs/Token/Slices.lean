/-
Tokens of a stretch of a line.

What is read at a character depends on the token before it, as far as that ends an operand, and on the text behind it up
to a character that breaks off a token. So a stretch between two such places has, on its own, the tokens that it has in
the line, and their spans are moved by where it begins.

- `scan_append`: what breaks off a token is not looked at;
- `Lexed.split`: tokens are those of two stretches, one behind the other;
- `Lexed.stretch`: the tokens between others are those of the text from the first to the last of them;
- `Lexed.shift`: where a text begins only moves its tokens.
-/
import Calculator.Proofs.Token.Tiling

namespace Calculator

/-! ## Moved spans -/

def Span.shift (offset : Nat) (s : Span) : Span := ⟨offset + s.start, offset + s.stop⟩

def Token.shift (offset : Nat) (t : Token) : Token := ⟨t.lexeme, t.span.shift offset⟩

@[simp] theorem Token.lexeme_shift (offset : Nat) (t : Token) : (t.shift offset).lexeme = t.lexeme := rfl

@[simp] theorem Token.span_shift (offset : Nat) (t : Token) : (t.shift offset).span = t.span.shift offset := rfl

/-- The text of a span in a stretch of a line is that of the moved span in the line. -/
theorem Span.text_shift {before text after : Text} {s : Span} (h : s.stop ≤ text.length) :
    (s.shift before.length).text (before ++ (text ++ after)) = s.text text := by
  have hlength : (s.shift before.length).length = s.length := Nat.add_sub_add_left ..
  rw [Span.text, Span.text, hlength, Span.shift, ← List.drop_drop, List.drop_left, List.drop_append,
    List.take_append_of_le_length]
  rw [List.length_drop]
  exact Nat.sub_le_sub_right h _

namespace Lexer

/-! ## What is not looked at -/

section

variable {rest : Text} (hrest : Breaks rest)

include hrest

theorem digits?_append (radix : Radix) (text : Text) : digits? radix (text ++ rest) = digits? radix text := by
  obtain ⟨htake, hdrop⟩ := takeWhile_append_of_stop (hrest.isDigit radix) text
  rw [digits?, digits?, htake, hdrop]
  cases hbehind : text.dropWhile radix.isDigit with
  | nil =>
    cases rest with
    | nil => rfl
    | cons c rest =>
      have hpoint := (hrest c rfl).2.1
      simp [hpoint]
  | cons c others =>
    by_cases hpoint : c = '.'
    · subst hpoint
      simp only [List.cons_append, (takeWhile_append_of_stop (hrest.isDigit radix) others).1]
    · simp [hpoint]

/-- The mark of a radix is not cut by what breaks off a token. -/
theorem eq_mark_of_append {text others : Text} {c d : Char} (hc : isNamePart c) (hd : isNamePart d)
    (h : text ++ rest = c :: d :: others) : ∃ more, text = c :: d :: more := by
  match text with
  | [] =>
    rw [List.nil_append] at h
    exact absurd hc (by simp [(hrest c (by simp [h])).1])
  | [_] =>
    obtain ⟨-, h⟩ := List.cons.inj h
    exact absurd hd (by simp [(hrest d (by simp_all)).1])
  | _ :: _ :: more =>
    rw [List.cons_append, List.cons_append, List.cons.injEq, List.cons.injEq] at h
    obtain ⟨rfl, rfl, -⟩ := h
    exact ⟨more, rfl⟩

theorem literal?_append (text : Text) : literal? (text ++ rest) = literal? text := by
  conv => rhs; unfold literal?
  split
  · rw [List.cons_append, List.cons_append, literal?, digits?_append hrest]
  · rw [List.cons_append, List.cons_append, literal?, digits?_append hrest]
  · rename_i hhexadecimal hbinary
    rw [literal?, digits?_append hrest]
    · intro others heq
      obtain ⟨more, rfl⟩ := eq_mark_of_append hrest (by decide) (by decide) heq
      exact hhexadecimal more rfl
    · intro others heq
      obtain ⟨more, rfl⟩ := eq_mark_of_append hrest (by decide) (by decide) heq
      exact hbinary more rfl

theorem word_append (c : Char) (text : Text) : word c (text ++ rest) = word c text := by
  have hstop : ∀ c ∈ rest.head?, isNamePart c = false := fun c hc => (hrest c hc).1
  rw [word, word, (takeWhile_append_of_stop hstop text).1]

theorem symbol_append (c : Char) (text : Text) : symbol c (text ++ rest) = symbol c text := by
  cases text with
  | cons d text =>
    unfold symbol
    split <;> simp_all
  | nil =>
    cases rest with
    | nil => rfl
    | cons d others =>
      obtain ⟨hpart, -, hstar⟩ := hrest d rfl
      have hnil : symbol c [] = ((symbol? c).getD (.invalid [c]), 0) := by simp [symbol]
      rw [List.nil_append, hnil, symbol.eq_def]
      split
      · rename_i heq
        exact absurd (List.cons.inj heq).1 hstar
      · rename_i heq
        rw [(List.cons.inj heq).1] at hpart
        cases hpart
      · rename_i heq
        rw [(List.cons.inj heq).1] at hpart
        cases hpart
      · rfl

/-- What is read at a character does not depend on what breaks off the token. -/
theorem scan_append (afterOperand : Bool) (c : Char) (text : Text) :
    scan afterOperand c (text ++ rest) = scan afterOperand c text := by
  rw [scan, scan, ← List.cons_append, literal?_append hrest, literal?_append hrest, word_append hrest,
    symbol_append hrest]

theorem Reads.of_append {afterOperand : Bool} {w text : Text} {l : Lexeme}
    (h : Reads afterOperand w (text ++ rest) l) : Reads afterOperand w text l := by
  obtain ⟨c, cs, rfl, hc, hscan⟩ := h
  rw [← List.append_assoc, scan_append hrest] at hscan
  exact ⟨c, cs, rfl, hc, hscan⟩

end

/-! ## Stretches -/

section

variable {position : Nat} {afterOperand : Bool} {text : Text} {t : Token} {ts us vs : List Token}

/-- Tokens in front of others are those of the text that ends with the last of them, if the text behind breaks off. -/
theorem Lexed.split (h : Lexed position afterOperand text (us ++ vs)) :
    ∃ front back, text = front ++ back ∧
      Lexed (position + front.length) (us.foldl (fun _ t => t.lexeme.endsOperand) afterOperand) back vs ∧
      (Breaks back → Lexed position afterOperand front us) ∧
      us.foldl (fun _ t => t.span.stop) position = position + front.length := by
  generalize hts : us ++ vs = ts at h
  induction h generalizing us with
  | nil position afterOperand =>
    obtain ⟨rfl, rfl⟩ := List.append_eq_nil_iff.1 hts
    exact ⟨[], [], rfl, .nil _ _, fun _ => .nil _ _, rfl⟩
  | @blank position afterOperand c rest ts hc hrest ih =>
    cases us with
    | nil =>
      obtain rfl : vs = ts := hts
      exact ⟨[], c :: rest, rfl, .blank hc hrest, fun _ => .nil _ _, rfl⟩
    | cons u us =>
      obtain ⟨front, back, rfl, hback, hfront, hlast⟩ := ih hts
      rw [Nat.add_right_comm, Nat.add_assoc, ← List.length_cons (a := c)] at hback hlast
      exact ⟨c :: front, back, rfl, hback, fun hbreaks => .blank hc (hfront hbreaks), hlast⟩
  | @token position afterOperand w rest l ts hread hrest ih =>
    cases us with
    | nil =>
      obtain rfl : vs = _ := hts
      exact ⟨[], w ++ rest, rfl, .token hread hrest, fun _ => .nil _ _, rfl⟩
    | cons u us =>
      obtain ⟨rfl, htail⟩ := List.cons.inj hts
      obtain ⟨front, back, rfl, hback, hfront, hlast⟩ := ih htail
      rw [Nat.add_assoc, ← List.length_append] at hback hlast
      refine ⟨w ++ front, back, by rw [List.append_assoc], hback, fun hbreaks => ?_, hlast⟩
      exact .token (hread.of_append hbreaks) (hfront hbreaks)

/-- The first token begins behind blanks. -/
theorem Lexed.skip (h : Lexed position afterOperand text (t :: ts)) :
    ∃ blanks rest, text = blanks ++ rest ∧ t.span.start = position + blanks.length ∧
      Lexed t.span.start afterOperand rest (t :: ts) := by
  generalize hts : t :: ts = us at h
  induction h with
  | nil => cases hts
  | @blank position afterOperand c rest us _ _ ih =>
    obtain ⟨blanks, rest, rfl, hstart, hrest⟩ := ih hts
    rw [Nat.add_right_comm, Nat.add_assoc] at hstart
    exact ⟨c :: blanks, rest, rfl, hstart, hrest⟩
  | @token position afterOperand w rest l us hread hrest _ =>
    obtain ⟨rfl, rfl⟩ := List.cons.inj hts
    exact ⟨[], w ++ rest, rfl, rfl, .token hread hrest⟩

/-- In front of a parenthesis that closes and of a comma, every token is broken off. -/
theorem Lexed.breaks (h : Lexed position afterOperand text (t :: ts))
    (ht : t.lexeme = .operator .rightParen ∨ t.lexeme = .punctuation .comma) : Breaks text := by
  cases h with
  | @blank _ _ c rest _ hc _ =>
    intro d hd
    obtain rfl : c = d := Option.some.inj hd
    refine ⟨?_, ?_, ?_⟩
    · rw [← Bool.not_eq_true]
      intro hpart
      rw [not_isBlank_of_isNamePart hpart] at hc
      cases hc
    · rintro rfl
      exact absurd hc (by decide)
    · rintro rfl
      exact absurd hc (by decide)
  | @token _ _ w rest l _ hread _ =>
    have hw : w = [')'] ∨ w = [','] := by
      rcases ht with rfl | rfl
      · exact .inl hread.spelling.eq_symbol
      · exact .inr hread.spelling.eq_punctuation
    rcases hw with rfl | rfl
    · simp [Breaks, show isNamePart ')' = false by decide]
    · simp [Breaks, show isNamePart ',' = false by decide]

/-- **The tokens of a stretch.** Tokens between one that ends no operand and a comma or closing parenthesis are those of
the text from the first to the last of them. -/
theorem Lexed.stretch {line : Text} {first stop : Token} {others after : List Token}
    (h : Lexed 0 false line (us ++ (first :: others ++ stop :: after)))
    (hus : us.foldl (fun _ t => t.lexeme.endsOperand) false = false)
    (hstop : stop.lexeme = .operator .rightParen ∨ stop.lexeme = .punctuation .comma) :
    ∃ front text behind, line = front ++ (text ++ behind) ∧ first.span.start = front.length ∧
      others.foldl (fun _ t => t.span.stop) first.span.stop = front.length + text.length ∧
      Lexed front.length false text (first :: others) := by
  obtain ⟨front, back, rfl, hback, -⟩ := h.split
  rw [hus, List.cons_append] at hback
  obtain ⟨blanks, rest, rfl, hstart, hrest⟩ := hback.skip
  rw [Nat.zero_add, ← List.length_append] at hstart
  rw [hstart, ← List.cons_append] at hrest
  obtain ⟨text, behind, rfl, hbehind, htext, hlast⟩ := hrest.split
  exact ⟨front ++ blanks, text, behind, by simp, hstart, hlast, htext (hbehind.breaks hstop)⟩

/-- Where a text begins only moves its tokens. -/
theorem Lexed.shift (h : Lexed position afterOperand text ts) (offset : Nat) :
    Lexed (offset + position) afterOperand text (ts.map (Token.shift offset)) := by
  induction h with
  | nil => exact .nil _ _
  | blank hc _ ih => exact .blank hc ih
  | @token position afterOperand w rest l ts hread _ ih =>
    rw [← Nat.add_assoc] at ih
    rw [List.map_cons, Token.shift, Span.shift, ← Nat.add_assoc]
    exact .token hread ih

theorem Lexed.unique (h : Lexed position afterOperand text ts) (h' : Lexed position afterOperand text us) : ts = us :=
  List.append_cancel_right (h.tokensFrom_eq.symm.trans h'.tokensFrom_eq)

end

end Lexer

end Calculator
