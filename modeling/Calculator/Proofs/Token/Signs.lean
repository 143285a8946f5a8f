/-
Which minuses are signs.

A minus in front of a literal is read behind the token before it in the list (`Lexed.reads_text`), whatever blanks
stand between them. If that token ends an operand, the minus is a token of its own, and the literal is the next one;
otherwise the two are one number, the negation of the literal.

- `Reads.sign`: a number is read with a sign only where no operand ends before it, and is the literal negated;
- `Reads.minus`: a minus in front of a literal is an operator only where an operand ends before it;
- `signs_folded`: so it is in every list of tokens.
-/
import Calculator.Proofs.Numeral.ReadBack
import Calculator.Proofs.Token.Newlines
import Calculator.Proofs.Token.Respacing

namespace Calculator

/-- the tokens that end an operand: numbers, names, and the closing parenthesis -/
inductive EndsOperand : Lexeme → Prop where
  | number (value : Binary64) (radix : Radix) : EndsOperand (.number value radix)
  | name (name : String) : EndsOperand (.name name)
  | rightParen : EndsOperand (.operator .rightParen)

theorem endsOperand_iff {l : Lexeme} : l.endsOperand = true ↔ EndsOperand l := by
  constructor
  · intro h
    unfold Lexeme.endsOperand at h
    split at h
    · exact .number _ _
    · exact .name _
    · exact .rightParen
    · cases h
  · intro h
    cases h <;> rfl

namespace Lexer

/-! ## One token -/

section

variable {afterOperand : Bool} {v w rest : Text} {value : Binary64} {radix : Radix}

/-- **A sign.** A number is read with a sign only where no operand ends before it, and it is the negation of the literal
behind the sign. -/
theorem Reads.sign (h : Reads afterOperand ('-' :: v) rest (.number value radix)) :
    afterOperand = false ∧ ∃ m : Literal, literal? (v ++ rest) = some m ∧ m.length = v.length ∧
      value = -m.value ∧ radix = m.radix := by
  obtain ⟨c, cs, hw, -, hscan⟩ := h
  obtain ⟨rfl, rfl⟩ := List.cons.inj hw
  have hnone : literal? ('-' :: (v ++ rest)) = none := literal?_eq_none (by simp)
  rw [scan, hnone] at hscan
  simp only [show isNameStart '-' = false by decide, Bool.false_eq_true, if_false] at hscan
  split at hscan
  · rename_i hsign
    split at hscan
    · rename_i m hm
      obtain ⟨hnumber, hlength⟩ := Prod.mk.inj hscan
      obtain ⟨rfl, rfl⟩ := Lexeme.number.inj hnumber
      exact ⟨hsign.2, m, hm, hlength, rfl, rfl⟩
    · exact absurd (congrArg Prod.fst hscan) (symbol_ne_number '-' _ value radix)
  · exact absurd (congrArg Prod.fst hscan) (symbol_ne_number '-' _ value radix)

/-- The literal behind a sign is on its own a line of one token, the number without its sign. -/
theorem Reads.tokens_unsigned (h : Reads afterOperand ('-' :: v) rest (.number value radix)) :
    ∃ x, tokens v = [⟨.number x radix, ⟨0, v.length⟩⟩, ⟨.endOfInput, ⟨v.length, v.length + 1⟩⟩] ∧ value = -x := by
  obtain ⟨-, m, hm, hlength, rfl, rfl⟩ := h.sign
  have halike : Lookalike rest [] := lookalike_of_blank (by simp)
  exact ⟨m.value, tokens_of_reads ((reads_literal hm hlength false).congr halike), rfl⟩

/-- **A subtraction.** In front of a literal, a minus is an operator only where an operand ends before it. -/
theorem Reads.minus (h : Reads afterOperand w rest (.operator .subtract)) {m : Literal} (hm : literal? rest = some m) :
    afterOperand = true := by
  obtain rfl : w = ['-'] := h.spelling.eq_symbol
  obtain ⟨c, cs, hw, -, hscan⟩ := h
  obtain ⟨rfl, rfl⟩ := List.cons.inj hw
  rw [← Bool.not_eq_false]
  rintro rfl
  have hnone : literal? ('-' :: ([] ++ rest)) = none := literal?_eq_none (by simp)
  rw [scan, hnone, if_neg (by decide), if_pos ⟨rfl, rfl⟩, List.nil_append, hm] at hscan
  cases (Prod.mk.inj hscan).1

end

/-! ## The token before -/

/-- whether an operand ends in front of what comes behind some tokens -/
def operandEnds (afterOperand : Bool) (before : List Token) : Bool :=
  before.foldl (fun _ t => t.lexeme.endsOperand) afterOperand

section

variable {position : Nat} {afterOperand : Bool} {text line : Text} {t : Token} {before after : List Token}

@[simp] theorem operandEnds_concat : operandEnds afterOperand (before ++ [t]) = t.lexeme.endsOperand := by
  simp [operandEnds]

/-- In front of all tokens no operand ends. -/
theorem exists_endsOperand (h : operandEnds false before = true) : ∃ t ∈ before.getLast?, EndsOperand t.lexeme := by
  rcases List.eq_nil_or_concat before with rfl | ⟨others, t, rfl⟩
  · cases h
  · rw [List.concat_eq_append] at h ⊢
    rw [operandEnds_concat] at h
    exact ⟨t, List.getLast?_concat, endsOperand_iff.1 h⟩

/-- **The token before.** A token is read behind the last of those in front of it. -/
theorem Lexed.reads_at (h : Lexed position afterOperand text (before ++ t :: after)) :
    ∃ front w rest, text = front ++ (w ++ rest) ∧
      t.span = ⟨position + front.length, position + front.length + w.length⟩ ∧
      Reads (operandEnds afterOperand before) w rest t.lexeme := by
  obtain ⟨front, back, rfl, hback, -⟩ := h.split
  obtain ⟨blanks, back, rfl, hstart, hback⟩ := hback.skip
  obtain ⟨w, rest, rfl, hspan, hread, -⟩ := hback.first rfl
  rw [hstart, Nat.add_assoc position, ← List.length_append] at hspan
  exact ⟨front ++ blanks, w, rest, (List.append_assoc ..).symm, hspan, hread⟩

/-- So is a token of a line, in front of what comes behind it there. -/
theorem Lexed.reads_text (h : Lexed 0 false line (before ++ t :: after)) :
    Reads (operandEnds false before) (t.span.text line) (line.drop t.span.stop) t.lexeme := by
  obtain ⟨front, w, rest, rfl, hspan, hread⟩ := h.reads_at
  have htext : t.span.text (front ++ (w ++ rest)) = w := by simp [hspan, Span.text, Span.length]
  have hstop : (front ++ (w ++ rest)).drop t.span.stop = rest := by
    simp [hspan, ← List.append_assoc, ← List.length_append]
  rwa [htext, hstop]

/-- **A minus and a literal.** A minus that a number without sign follows at once stands behind an operand. -/
theorem Lexed.operandEnds_of_minus {u : Token} {value : Binary64} {radix : Radix}
    (h : Lexed 0 false line (before ++ t :: u :: after)) (ht : t.lexeme = .operator .subtract)
    (hu : u.lexeme = .number value radix) (hadjacent : t.span.stop = u.span.start)
    (hsign : (u.span.text line).head? ≠ some '-') : operandEnds false before = true := by
  have hread := h.reads_text
  obtain ⟨_, huread, hdrop⟩ := h.exists_reads (List.mem_append_right _ (List.mem_cons_of_mem t List.mem_cons_self))
  rw [ht, hadjacent, hdrop] at hread
  cases hliteral : literal? (u.span.text line ++ line.drop u.span.stop) with
  | none => exact absurd (huread.literal?_eq_none_iff.1 hliteral value radix hu) hsign
  | some m => exact hread.minus hliteral

/-- What comes before a token of a line is found before the end of input. -/
theorem exists_lexed_at (h : tokens line = before ++ t :: after) (ht : t.lexeme ≠ .endOfInput) :
    ∃ others, Lexed 0 false line (before ++ t :: others) := by
  obtain ⟨ts, hlexed, htokens⟩ := exists_lexed_tokens line
  rw [h] at htokens
  rcases List.eq_nil_or_concat after with rfl | ⟨others, last, rfl⟩
  · obtain ⟨-, hlast⟩ := List.append_inj' htokens rfl
    rw [(List.cons.inj hlast).1] at ht
    exact absurd rfl ht
  · rw [List.concat_eq_append, ← List.cons_append, ← List.append_assoc] at htokens
    obtain ⟨rfl, -⟩ := List.append_inj' htokens rfl
    exact ⟨others, hlexed⟩

end

end Lexer

/-! ## The tokens of a line -/

/-- how the minuses of a line are read -/
structure SignsFolded (line : Text) : Prop where
  /-- A number with a sign follows no token that ends an operand. -/
  sign : ∀ before t u after value radix, tokens line = before ++ t :: u :: after → u.lexeme = .number value radix →
    (u.span.text line).head? = some '-' → ¬ EndsOperand t.lexeme
  /-- A minus that a number without sign follows at once follows a token that ends an operand. -/
  subtraction : ∀ before t u after value radix, tokens line = before ++ t :: u :: after →
    t.lexeme = .operator .subtract → u.lexeme = .number value radix → t.span.stop = u.span.start →
    (u.span.text line).head? ≠ some '-' → ∃ s ∈ before.getLast?, EndsOperand s.lexeme
  /-- A number with a sign is the negation of the number that is read of its text without the sign. -/
  value : ∀ t ∈ tokens line, ∀ value radix w, t.lexeme = .number value radix → t.span.text line = '-' :: w →
    ∃ x, tokens w = [⟨.number x radix, ⟨0, w.length⟩⟩, ⟨.endOfInput, ⟨w.length, w.length + 1⟩⟩] ∧ value = -x

open Lexer in
/-- **Signs are folded.** A minus in front of a literal is its sign, unless a number, a name or a closing parenthesis is
the token before it. -/
theorem signs_folded (line : Text) : SignsFolded line where
  sign := by
    intro before t u after value radix htokens hu hsign hends
    rw [List.append_cons] at htokens
    obtain ⟨others, hlexed⟩ := exists_lexed_at htokens (by simp [hu])
    have hread := hlexed.reads_text
    obtain ⟨v, htext⟩ := List.head?_eq_some_iff.1 hsign
    rw [operandEnds_concat, endsOperand_iff.2 hends, htext, hu] at hread
    cases hread.sign.1
  subtraction := by
    intro before t u after value radix htokens ht hu hadjacent hsign
    rw [List.append_cons] at htokens
    obtain ⟨others, hlexed⟩ := exists_lexed_at htokens (by simp [hu])
    rw [← List.append_cons] at hlexed
    exact exists_endsOperand (hlexed.operandEnds_of_minus ht hu hadjacent hsign)
  value := by
    intro t ht value radix w hnumber htext
    obtain ⟨before, after, htokens⟩ := List.append_of_mem ht
    obtain ⟨others, hlexed⟩ := exists_lexed_at htokens (by simp [hnumber])
    have hread := hlexed.reads_text
    rw [htext, hnumber] at hread
    exact hread.tokens_unsigned

/-- a sign, a subtraction of a number with a sign, and a subtraction behind a parenthesis -/
def signsLine : Text := "-0x2--1 *(x)-.5".toList

def signsTokens : List Token :=
  [⟨.number (-Radix.hexadecimal.value ['2'] []) .hexadecimal, ⟨0, 4⟩⟩, ⟨.operator .subtract, ⟨4, 5⟩⟩,
    ⟨.number (-Radix.decimal.value ['1'] []) .decimal, ⟨5, 7⟩⟩, ⟨.operator .multiply, ⟨8, 9⟩⟩,
    ⟨.operator .leftParen, ⟨9, 10⟩⟩, ⟨.name "x", ⟨10, 11⟩⟩, ⟨.operator .rightParen, ⟨11, 12⟩⟩,
    ⟨.operator .subtract, ⟨12, 13⟩⟩, ⟨.number (Radix.decimal.value [] ['5']) .decimal, ⟨13, 15⟩⟩,
    ⟨.endOfInput, ⟨15, 16⟩⟩]

/-- Behind a number only the second of two minuses is a sign. -/
theorem signs_folded_signsLine : tokens signsLine = signsTokens ∧ SignsFolded signsLine :=
  ⟨by decide +kernel, signs_folded signsLine⟩

end Calculator
