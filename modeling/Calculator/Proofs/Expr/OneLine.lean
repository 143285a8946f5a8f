/-
What is printed of a line fits on one line.

The text of a number holds digits, a point, signs and letters, and that of an expression that was parsed also the
names and symbols of its tokens. A newline is none of these, even where the line had newlines.

- `newline_notMem_render`: results have no newline in them;
- `newline_notMem_text_of_parse`: nor has an expression that was parsed.
-/
import Calculator.Proofs.Expr.RoundTrip
import Calculator.Proofs.Token.Newlines

namespace Calculator

/-! ## Numbers -/

/-- Digits of a radix have no newline among them. -/
theorem Radix.newline_notMem {radix : Radix} {digits : Text} (h : ∀ c ∈ digits, radix.isDigit c) : '\n' ∉ digits := by
  intro hmem
  have hdigit := h '\n' hmem
  cases radix <;> exact absurd hdigit (by decide)

theorem newline_notMem_toDigits (radix : Radix) (n : Nat) : '\n' ∉ Nat.toDigits radix.base n :=
  Radix.newline_notMem (isDigit_of_mem_toDigits radix n)

theorem newline_notMem_padLeft {digits : Text} (h : '\n' ∉ digits) (width : Nat) : '\n' ∉ padLeft width digits := by
  intro hmem
  rcases List.mem_append.1 hmem with hzero | hdigit
  · exact absurd (List.eq_of_mem_replicate hzero) (by decide)
  · exact h hdigit

theorem Radix.newline_notMem_expansion (radix : Radix) (units : Nat) : '\n' ∉ radix.expansion units := by
  have hwhole := newline_notMem_toDigits radix (units / Binary64.unit)
  have hplaces := Radix.newline_notMem (isDigit_of_mem_fractionDigits radix (radix.scaled_lt units))
  unfold expansion
  simp only
  split
  · exact hwhole
  · simp [hwhole, hplaces]

theorem Decimal.newline_notMem_text (layout : Layout) (d : Decimal) : '\n' ∉ d.text layout := by
  have hdigits : ∀ n, '\n' ∉ Nat.toDigits 10 n := newline_notMem_toDigits .decimal
  unfold text
  split
  · simp [positional, hdigits, newline_notMem_padLeft (hdigits _)]
  · unfold scientific
    split
    · exact List.not_mem_nil
    · rename_i first rest hall
      have hnotMem := hdigits d.digits
      rw [hall, List.mem_cons, not_or] at hnotMem
      split <;> simp [hnotMem.1, hnotMem.2, newline_notMem_padLeft (hdigits _)]

namespace Binary64

theorem newline_notMem_signText (negative : Bool) (units : Nat) : '\n' ∉ signText negative units := by
  unfold signText
  split <;> decide

theorem newline_notMem_nonFiniteText (x : Binary64) : '\n' ∉ x.nonFiniteText := by
  unfold nonFiniteText
  split <;> decide +kernel

theorem newline_notMem_text (x : Binary64) : '\n' ∉ x.text := by
  unfold text
  split
  · rename_i negative units hunits
    have hmagnitude : '\n' ∉ magnitudeText units := by
      unfold magnitudeText
      split
      · exact newline_notMem_toDigits .decimal _
      · exact Decimal.newline_notMem_text _ _
    simp [newline_notMem_signText, hmagnitude]
  · exact newline_notMem_nonFiniteText _

/-- Results are printed on one line. -/
theorem newline_notMem_render (radix : Radix) (x : Binary64) : '\n' ∉ x.render radix := by
  have hmark : '\n' ∉ radix.mark := by cases radix <;> decide
  unfold render
  split
  · exact newline_notMem_text x
  · simp [newline_notMem_signText, hmark, Radix.newline_notMem_expansion]
  · exact newline_notMem_nonFiniteText _

end Binary64

/-! ## Expressions -/

theorem newline_notMem_joined {separator : Text} (hseparator : '\n' ∉ separator) {ts : List Text}
    (h : ∀ t ∈ ts, '\n' ∉ t) : '\n' ∉ joined separator ts := by
  induction ts with
  | nil => exact List.not_mem_nil
  | cons t ts ih =>
    obtain ⟨ht, hts⟩ := List.forall_mem_cons.1 h
    cases ts with
    | nil => exact ht
    | cons u ts =>
      rw [joined]
      · simp [ht, hseparator, ih hts]
      · exact List.cons_ne_nil u ts

namespace Expr

theorem newline_notMem_text (e : Expr) (hnames : ∀ name, .name name ∈ e.lexemes → '\n' ∉ name.toList) :
    '\n' ∉ e.text := by
  induction e using Expr.induct with
  | number x => exact x.newline_notMem_text
  | var name => exact hnames name (List.mem_singleton_self _)
  | call name arguments ih =>
    have harguments : ∀ t ∈ texts arguments, '\n' ∉ t := by
      rw [texts_eq_map]
      intro t ht
      obtain ⟨e, he, rfl⟩ := List.mem_map.1 ht
      refine ih e he fun n hn => hnames n ?_
      have hmem := mem_withCommas (lexemesEach_eq_map arguments ▸ List.mem_map_of_mem he) hn
      simp [lexemes, hmem]
    have hname : '\n' ∉ name.toList := hnames name List.mem_cons_self
    have hseparator : '\n' ∉ [',', ' '] := by decide
    simp [text, hname, newline_notMem_joined hseparator harguments]
  | sequence elements ih =>
    have helements : ∀ t ∈ texts elements, '\n' ∉ t := by
      rw [texts_eq_map]
      intro t ht
      obtain ⟨e, he, rfl⟩ := List.mem_map.1 ht
      refine ih e he fun n hn => hnames n ?_
      rw [lexemes, lexemesEach_eq_map]
      exact List.mem_flatten_of_mem (List.mem_map_of_mem he) hn
    exact newline_notMem_joined (by decide) helements
  | operator op => cases op <;> decide

/-- The text of an expression that was parsed stands on one line. -/
theorem newline_notMem_text_of_parse {line : Text} {e : Expr} (h : Expr.parse line = .ok e) : '\n' ∉ e.text :=
  e.newline_notMem_text fun _ hname => (isNameText_of_parse h hname).newline_notMem

end Expr

end Calculator
