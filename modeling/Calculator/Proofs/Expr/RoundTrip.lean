/-
Printed expressions are parsed again.

An expression that a line stands for is printed as a text that stands for the same expression: the tokens of the text
are those of the line but for the radix of numbers and the sign of zeros. Numbers with an exponent are excluded, since an
exponent is no part of a literal.

- `ieeeEq_readBack`: an expression is equal to itself without negative zeros;
- `alike_tokens_text`: the tokens of the text are like those of the line;
- `parse_text`: the text of an expression that was parsed is parsed as an equal expression.
-/
import Calculator.Proofs.Expr.Printing

namespace Calculator

/-! ## Equality of expressions -/

namespace Expr

mutual

/-- Equality of expressions, in which numbers are equal if their values are. -/
def ieeeEq : Expr → Expr → Bool
  | number x, number y => x.ieeeEq y
  | var m, var n => m == n
  | call m es, call n fs => m == n && ieeeEqEach es fs
  | sequence es, sequence fs => ieeeEqEach es fs
  | operator o, operator p => o == p
  | _, _ => false

def ieeeEqEach : List Expr → List Expr → Bool
  | [], [] => true
  | e :: es, f :: fs => e.ieeeEq f && ieeeEqEach es fs
  | _, _ => false

end

theorem ieeeEq_readBackEach {es : List Expr} (h : ∀ e ∈ es, e.readBack.ieeeEq e) : ieeeEqEach (readBackEach es) es := by
  induction es with
  | nil => rfl
  | cons e es ih =>
    obtain ⟨he, hes⟩ := List.forall_mem_cons.1 h
    simp [readBackEach, ieeeEqEach, he, ih hes]

/-- Without negative zeros an expression is the same, if its numbers are finite. -/
theorem ieeeEq_readBack (e : Expr) (h : ∀ x ∈ e.numbers, x.Positional) : e.readBack.ieeeEq e := by
  induction e using Expr.induct with
  | number x =>
    have hx := h x List.mem_cons_self
    match x, hx with
    | .finite negative units _, _ =>
      by_cases hunits : units = 0
      · subst hunits
        cases negative <;> rfl
      · simp [readBack, ieeeEq, Binary64.positiveZero, Binary64.isZero, hunits, Binary64.ieeeEq]
  | var name => simp [readBack, ieeeEq]
  | call name arguments ih =>
    rw [numbers, numbersEach_eq_flatMap] at h
    have heach := ieeeEq_readBackEach fun e he => ih e he fun x hx => h x (List.mem_flatMap_of_mem he hx)
    simp [readBack, ieeeEq, heach]
  | sequence elements ih =>
    rw [numbers, numbersEach_eq_flatMap] at h
    exact ieeeEq_readBackEach fun e he => ih e he fun x hx => h x (List.mem_flatMap_of_mem he hx)
  | operator op => simp [readBack, ieeeEq]

end Expr

/-! ## The round trip -/

theorem signsFit_readBack {afterOperand : Bool} {ls : List Lexeme} (h : Lexer.SignsFit afterOperand ls) :
    Lexer.SignsFit afterOperand (ls.map Lexeme.readBack) := by
  induction ls generalizing afterOperand with
  | nil => trivial
  | cons l ls ih =>
    have hends : l.readBack.endsOperand = l.endsOperand := by cases l <;> rfl
    refine ⟨?_, hends ▸ ih h.2⟩
    intro hafter value radix hl
    cases l with
    | number x radix' =>
      cases hl
      have hx := h.1 hafter x radix' rfl
      unfold Binary64.positiveZero
      split
      · rfl
      · exact hx
    | _ => cases hl

section

variable {line : Text}

/-- A line without newlines is its content and the end of input. -/
theorem exists_tokens_eq (hline : '\n' ∉ line) :
    ∃ ts span, tokens line = ts ++ [⟨.endOfInput, span⟩] ∧ content (tokens line) = ts.map (·.lexeme.inDecimal) := by
  obtain ⟨ts, span, htokens, hts⟩ := tokens_eq_append line
  have hnewline : ∀ t ∈ ts, t.lexeme ≠ .newline := by
    intro t ht hl
    have hmem : t ∈ tokens line := htokens ▸ List.mem_append_left _ ht
    obtain ⟨_, c, hc, hscan⟩ := exists_scanned_of_mem_tokens hmem (hts t ht)
    rw [hl] at hscan
    cases hscan with
    | newline hnewline => exact hline (hnewline ▸ hc)
  refine ⟨ts, span, htokens, ?_⟩
  rw [htokens, content_concat_end hts, List.filter_eq_self.2 (by simpa using hnewline)]

/-- The names of an expression that was parsed can be read. -/
theorem isNameText_of_parse {e : Expr} (he : Expr.parse line = .ok e) {name : String} (h : .name name ∈ e.lexemes) :
    Lexer.IsNameText name.toList := by
  rw [lexemes_of_parse he] at h
  obtain ⟨t, ht, hname⟩ := exists_token_of_mem_content h
  obtain ⟨_, c, _, hscan⟩ := exists_scanned_of_mem_tokens ht (by simp [hname])
  rw [hname] at hscan
  cases hscan with
  | name text htext => rwa [String.toList_ofList]

/-- The tokens of the text are those of the line, if no newline is among them. -/
theorem alike_tokens_text (hline : '\n' ∉ line) {e : Expr} (he : Expr.parse line = .ok e)
    (hnumbers : ∀ x ∈ e.numbers, x.Positional) : Alike (tokens line) (tokens e.text) := by
  obtain ⟨ts, span, htokens, hcontent⟩ := exists_tokens_eq hline
  rw [← lexemes_of_parse he] at hcontent
  have hread : e.lexemes.map Lexeme.readBack = ts.map (·.lexeme.readBack) := by
    rw [hcontent, List.map_map]
    refine List.map_congr_left fun t _ => ?_
    change t.lexeme.inDecimal.readBack = t.lexeme.readBack
    cases t.lexeme <;> rfl
  have hsigns : Lexer.SignsFit false (e.lexemes.map Lexeme.readBack) := by
    have hfit := signsFit_tokens line
    rw [htokens, List.map_append] at hfit
    have hts := signsFit_readBack ((Lexer.signsFit_append ..).1 hfit).1
    rw [hread]
    rwa [List.map_map] at hts
  have htext := e.spells_text (fun _ => isNameText_of_parse he) hnumbers false [] Lexer.breaks_nil hsigns
  refine alike_of_map_eq ?_
  rw [List.append_nil, hread, Lexer.lexemesFrom_nil] at htext
  rw [htokens, List.map_append]
  exact htext

end

/-- **What is printed is parsed again.** The text of an expression that a line without newlines stands for stands for an
equal expression, if no number of it is printed with an exponent. -/
theorem Expr.parse_text {line : Text} (hline : '\n' ∉ line) {e : Expr} (he : Expr.parse line = .ok e)
    (hnumbers : ∀ x ∈ e.numbers, x.Positional) : ∃ e', Expr.parse e.text = .ok e' ∧ e'.ieeeEq e := by
  have halike := alike_tokens_text hline he hnumbers
  refine ⟨e.readBack, ?_, e.ieeeEq_readBack hnumbers⟩
  rw [Expr.parse, parsing_eq_ok_iff, Expr.ofTokens, map_eq_ok_iff] at he ⊢
  obtain ⟨es, hes, rfl⟩ := he
  exact ⟨_, (readElements_alike line _).1 _ _ _ halike hes, rfl⟩

def negativeHalf : Binary64 := .finite true (2 ^ 1073) (by decide +kernel)

def negativeZero : Binary64 := .finite true 0 representable_zero

/-- a line with an empty argument and a sign behind a minus -/
def signedLine : Text := ['f', '(', '-', '0', '.', '5', ',', ')', '-', ' ', '-', '0']

def signedExpr : Expr :=
  .sequence [.call "f" [.sequence [.number negativeHalf], .sequence []], .operator .subtract, .number negativeZero]

/-- Neither the empty argument nor a sign is lost. -/
theorem parse_text_signedLine :
    '\n' ∉ signedLine ∧ Expr.parse signedLine = .ok signedExpr ∧ (∀ x ∈ signedExpr.numbers, x.Positional) ∧
      ∃ e, Expr.parse signedExpr.text = .ok e ∧ e.ieeeEq signedExpr := by
  have hline : '\n' ∉ signedLine := by decide
  have htokens : tokens signedLine =
      [⟨.name "f", ⟨0, 1⟩⟩, ⟨.operator .leftParen, ⟨1, 2⟩⟩, ⟨.number negativeHalf .decimal, ⟨2, 6⟩⟩,
        ⟨.punctuation .comma, ⟨6, 7⟩⟩, ⟨.operator .rightParen, ⟨7, 8⟩⟩, ⟨.operator .subtract, ⟨8, 9⟩⟩,
        ⟨.number negativeZero .decimal, ⟨10, 12⟩⟩, ⟨.endOfInput, ⟨12, 13⟩⟩] := by decide +kernel
  have hparse : Expr.parse signedLine = .ok signedExpr := by
    rw [Expr.parse, htokens]
    with_unfolding_all rfl
  have hnumbers : ∀ x ∈ signedExpr.numbers, x.Positional := by
    have hhalf : negativeHalf.Positional := .inr (by decide +kernel)
    have hzero : negativeZero.Positional := .inl (Nat.zero_mod _)
    intro x hx
    have hx' : x ∈ [negativeHalf, negativeZero] := hx
    simp only [List.mem_cons, List.not_mem_nil, or_false] at hx'
    rcases hx' with rfl | rfl
    · exact hhalf
    · exact hzero
  exact ⟨hline, hparse, hnumbers, Expr.parse_text hline hparse hnumbers⟩

end Calculator
