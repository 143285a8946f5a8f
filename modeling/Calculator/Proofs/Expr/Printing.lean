/-
The text of an expression is read as its lexemes.

`Spells w ls` says that a text is read as some lexemes, whatever comes before and behind it: behind it stands something
that breaks off a token, and before it no operand if the first lexeme is a number below zero. Texts are put together
with a space or a comma between them, and each of these breaks off what stands before it.

- `Spells.joined_space`, `Spells.joined_comma`: elements with spaces and arguments with commas between them;
- `Expr.spells_text`: the text of an expression, if its numbers have no exponent and its names can be read.

Numbers are read back in decimal, and the negative zero as the positive one (`Lexeme.readBack`).
-/
import Calculator.Proofs.Expr.Alike
import Calculator.Proofs.Numeral.Decimal

namespace Calculator

namespace Lexer

/-- the lexemes of a text -/
def lexemesFrom (afterOperand : Bool) (text : Text) : List Lexeme := (tokensFrom 0 afterOperand text).map (·.lexeme)

/-- Lexemes do not depend on where a text stands in its line. -/
theorem map_lexeme_tokensFrom (position : Nat) (afterOperand : Bool) (text : Text) :
    (tokensFrom position afterOperand text).map (·.lexeme) = lexemesFrom afterOperand text := by
  suffices h : ∀ other, (tokensFrom position afterOperand text).map (·.lexeme) =
      (tokensFrom other afterOperand text).map (·.lexeme) from h 0
  fun_induction tokensFrom position afterOperand text with
  | case1 position afterOperand =>
    intro other
    rw [tokensFrom_nil]
    rfl
  | case2 position afterOperand c rest hblank ih =>
    intro other
    rw [tokensFrom_blank other afterOperand hblank]
    exact ih (other + 1)
  | case3 position afterOperand c rest hblank lexeme more hscan stop ih =>
    intro other
    rw [tokensFrom_scan other (by simpa using hblank) hscan, List.map_cons, List.map_cons]
    rw [ih (other + 1 + more)]

theorem lexemesFrom_nil (afterOperand : Bool) : lexemesFrom afterOperand [] = [.endOfInput] := by
  rw [lexemesFrom, tokensFrom_nil]
  rfl

theorem lexemesFrom_reads {afterOperand : Bool} {w rest : Text} {l : Lexeme} (h : Reads afterOperand w rest l) :
    lexemesFrom afterOperand (w ++ rest) = l :: lexemesFrom l.endsOperand rest := by
  rw [lexemesFrom, tokensFrom_reads h, List.map_cons, map_lexeme_tokensFrom]

theorem lexemesFrom_space (afterOperand : Bool) (rest : Text) :
    lexemesFrom afterOperand (' ' :: rest) = lexemesFrom afterOperand rest := by
  rw [lexemesFrom, tokensFrom_blank _ _ (by decide), map_lexeme_tokensFrom]

/-- whether an operand ends behind some lexemes -/
def endsAfter (afterOperand : Bool) (ls : List Lexeme) : Bool := ls.foldl (fun _ l => l.endsOperand) afterOperand

theorem endsAfter_append (afterOperand : Bool) (ls ms : List Lexeme) :
    endsAfter afterOperand (ls ++ ms) = endsAfter (endsAfter afterOperand ls) ms := List.foldl_append

theorem signsFit_append (afterOperand : Bool) (ls ms : List Lexeme) :
    SignsFit afterOperand (ls ++ ms) ↔ SignsFit afterOperand ls ∧ SignsFit (endsAfter afterOperand ls) ms := by
  induction ls generalizing afterOperand with
  | nil => simp [SignsFit, endsAfter]
  | cons l ls ih => simp only [List.cons_append, SignsFit, ih, and_assoc]; rfl

/-! ## Texts and lexemes -/

/-- A text is read as these lexemes, in front of everything that breaks off a token. -/
def Spells (w : Text) (ls : List Lexeme) : Prop :=
  ∀ afterOperand rest, Breaks rest → SignsFit afterOperand ls →
    lexemesFrom afterOperand (w ++ rest) = ls ++ lexemesFrom (endsAfter afterOperand ls) rest

theorem spells_nil : Spells [] [] := fun _ _ _ _ => rfl

theorem spells_of_reads {w : Text} {l : Lexeme}
    (h : ∀ afterOperand rest, Breaks rest → SignsFit afterOperand [l] → Reads afterOperand w rest l) : Spells w [l] :=
  fun afterOperand rest hrest hsigns => lexemesFrom_reads (h afterOperand rest hrest hsigns)

theorem Spells.append {w w' : Text} {ls ls' : List Lexeme} (h : Spells w ls) (h' : Spells w' ls')
    (hbreaks : ∀ rest, Breaks (w' ++ rest)) : Spells (w ++ w') (ls ++ ls') := by
  intro afterOperand rest hrest hsigns
  obtain ⟨hsigns₁, hsigns₂⟩ := (signsFit_append ..).1 hsigns
  rw [List.append_assoc, h _ _ (hbreaks rest) hsigns₁, h' _ _ hrest hsigns₂, endsAfter_append, List.append_assoc]

theorem Spells.space {w : Text} {ls : List Lexeme} (h : Spells w ls) : Spells (' ' :: w) ls := by
  intro afterOperand rest hrest hsigns
  rw [List.cons_append, lexemesFrom_space]
  exact h afterOperand rest hrest hsigns

/-- A parenthesis or a comma is a token of its own, whatever stands behind it. -/
theorem Spells.symbol {w : Text} {ls : List Lexeme} (h : Spells w ls) {c : Char} {l : Lexeme} (hc : symbol? c = some l)
    (hstar : c ≠ '*') (hminus : c ≠ '-') : Spells (c :: w) (l :: ls) := by
  intro afterOperand rest hrest hsigns
  have hread : Reads afterOperand [c] (w ++ rest) l :=
    reads_symbol hc (fun heq => absurd heq hstar) fun heq => absurd heq hminus
  rw [List.cons_append, ← List.singleton_append, lexemesFrom_reads hread, h _ _ hrest hsigns.2]
  rfl

theorem breaks_cons {c : Char} (h : isNamePart c = false ∧ c ≠ '.' ∧ c ≠ '*') (rest : Text) : Breaks (c :: rest) := by
  intro d hd
  cases hd
  exact h

/-- Texts with a space between them are read one after another. -/
theorem Spells.joined_space {ws : List Text} {lss : List (List Lexeme)} (h : List.Forall₂ Spells ws lss) :
    Spells (joined [' '] ws) lss.flatten := by
  induction h with
  | nil => exact spells_nil
  | @cons w ls ws lss hw hws ih =>
    cases hws with
    | nil => simpa [joined] using hw
    | cons _ _ =>
      rw [joined, List.flatten_cons, List.append_assoc]
      · exact hw.append ih.space fun _ => breaks_cons (by decide) _
      · simp

/-- Texts with a comma between them are read one after another, and the comma between them. -/
theorem Spells.joined_comma {ws : List Text} {lss : List (List Lexeme)} (h : List.Forall₂ Spells ws lss) :
    Spells (joined [',', ' '] ws) (withCommas lss) := by
  induction h with
  | nil => exact spells_nil
  | @cons w ls ws lss hw hws ih =>
    cases hws with
    | nil => simpa [joined, withCommas_singleton] using hw
    | cons _ _ =>
      rw [joined, withCommas_cons_cons, List.append_assoc]
      · exact hw.append (ih.space.symbol rfl (by decide) (by decide)) fun _ => breaks_cons (by decide) _
      · simp

/-- A name and arguments in parentheses are read as a call. -/
theorem Spells.call {name : String} (hname : IsNameText name.toList) {w : Text} {ls : List Lexeme} (h : Spells w ls) :
    Spells (name.toList ++ '(' :: w ++ [')'])
      (.name name :: .operator .leftParen :: (ls ++ [.operator .rightParen])) := by
  have hread : Spells name.toList [.name name] := by
    refine spells_of_reads fun afterOperand rest hrest _ => ?_
    have hread := reads_name hname hrest afterOperand
    rwa [String.ofList_toList] at hread
  have hclose : Spells (w ++ [')']) (ls ++ [.operator .rightParen]) :=
    h.append (spells_nil.symbol rfl (by decide) (by decide)) fun _ => breaks_cons (by decide) _
  rw [List.append_assoc, List.cons_append]
  exact hread.append (hclose.symbol rfl (by decide) (by decide)) fun _ => breaks_cons (by decide) _

end Lexer

/-! ## Expressions -/

namespace Expr

mutual

/-- the numbers of an expression, from left to right -/
def numbers : Expr → List Binary64
  | number value => [value]
  | call _ arguments => numbersEach arguments
  | sequence elements => numbersEach elements
  | _ => []

def numbersEach : List Expr → List Binary64
  | [] => []
  | e :: es => e.numbers ++ numbersEach es

end

theorem numbersEach_eq_flatMap (es : List Expr) : numbersEach es = es.flatMap numbers := by
  induction es with
  | nil => rfl
  | cons e es ih => simp [numbersEach, ih]

/-- Parts that spell their lexemes have texts and lexemes that belong together. -/
theorem forall₂_spells {es : List Expr} (h : ∀ e ∈ es, Lexer.Spells e.text (e.lexemes.map Lexeme.readBack)) :
    List.Forall₂ Lexer.Spells (texts es) ((lexemesEach es).map (List.map Lexeme.readBack)) := by
  rw [texts_eq_map, lexemesEach_eq_map, List.map_map, List.forall₂_map_left_iff, List.forall₂_map_right_iff,
    List.forall₂_same]
  exact h

/-- **The text of an expression is read as its lexemes.** Its names can be read, and its numbers have no exponent. -/
theorem spells_text (e : Expr) (hnames : ∀ name, .name name ∈ e.lexemes → Lexer.IsNameText name.toList)
    (hnumbers : ∀ x ∈ e.numbers, x.Positional) : Lexer.Spells e.text (e.lexemes.map Lexeme.readBack) := by
  induction e using Expr.induct with
  | number x =>
    refine Lexer.spells_of_reads fun afterOperand rest hrest hsigns => ?_
    exact (hnumbers x List.mem_cons_self).reads_text (fun hafter => hsigns.1 hafter _ _ rfl) hrest
  | var name =>
    refine Lexer.spells_of_reads fun afterOperand rest hrest _ => ?_
    have hread := Lexer.reads_name (hnames name List.mem_cons_self) hrest afterOperand
    rwa [String.ofList_toList] at hread
  | call name arguments ih =>
    have hparts : ∀ e ∈ arguments, Lexer.Spells e.text (e.lexemes.map Lexeme.readBack) := by
      intro e he
      refine ih e he (fun n hn => hnames n ?_) fun x hx => hnumbers x ?_
      · have hmem := mem_withCommas (lexemesEach_eq_map arguments ▸ List.mem_map_of_mem he) hn
        simp [lexemes, hmem]
      · rw [numbers, numbersEach_eq_flatMap]
        exact List.mem_flatMap_of_mem he hx
    have hcall := (Lexer.Spells.joined_comma (forall₂_spells hparts)).call (hnames name List.mem_cons_self)
    rw [← map_withCommas rfl] at hcall
    simpa [lexemes, text, Lexeme.readBack] using hcall
  | sequence elements ih =>
    have hparts : ∀ e ∈ elements, Lexer.Spells e.text (e.lexemes.map Lexeme.readBack) := by
      intro e he
      refine ih e he (fun n hn => hnames n ?_) fun x hx => hnumbers x ?_
      · rw [lexemes, lexemesEach_eq_map]
        exact List.mem_flatten_of_mem (List.mem_map_of_mem he) hn
      · rw [numbers, numbersEach_eq_flatMap]
        exact List.mem_flatMap_of_mem he hx
    rw [text, lexemes, List.map_flatten]
    exact Lexer.Spells.joined_space (forall₂_spells hparts)
  | operator op => exact Lexer.spells_of_reads fun afterOperand rest hrest _ => Lexer.reads_operator op hrest _

end Expr

end Calculator
