/-
Numerals that are the end of a name.

A numeral of free text may have blanks around it, a sign, a point, and digits of any script. A name has room for none of
these: what is left is ASCII digits, an exponent without a sign, and the words for infinity and NaN.

- `trim_of_isNamePart`, `map_asciiDigit`, `splitSign_of_isNamePart`: nothing is taken off a text of such characters, nor
  changed in it;
- `ofScientific_natCast`: digits scaled up are the integer that they denote, rounded once, however large it is;
- `numeral?_eq_some_iff`: which texts of the characters of names are numerals, and their numbers.
-/
import Calculator.Numeral.Reading
import Calculator.Proofs.Binary64.Nearest
import Calculator.Proofs.Numeral.Exponent
import Mathlib.Data.List.TakeDrop

namespace Calculator

open Lexer

/-- an exponent as it may stand in a name -/
def IsExponent (mark : Char) (es : Text) : Prop := (mark = 'e' ∨ mark = 'E') ∧ es ≠ [] ∧ ∀ c ∈ es, c.isDigit

instance (mark : Char) (es : Text) : Decidable (IsExponent mark es) :=
  have : Decidable (∀ c ∈ es, c.isDigit) := List.decidableBAll (fun c => c.isDigit) es
  inferInstanceAs (Decidable (_ ∧ _))

/-- The numbers that the end of a name denotes: ASCII digits, which a power of ten may follow, or a word in any case. -/
inductive DenotesBase : Text → Binary64 → Prop where
  | digits {ds : Text} (hne : ds ≠ []) (hds : ∀ c ∈ ds, c.isDigit) : DenotesBase ds (.ofNat (ofDigits 10 ds))
  | scientific {ds es : Text} {mark : Char} (hne : ds ≠ []) (hds : ∀ c ∈ ds, c.isDigit) (hes : IsExponent mark es) :
      DenotesBase (ds ++ mark :: es) (.ofNat (ofDigits 10 ds * 10 ^ ofDigits 10 es))
  | infinity {w : Text} (h : w.map Char.toLower = "inf".toList ∨ w.map Char.toLower = "infinity".toList) :
      DenotesBase w (.infinite false)
  | nan {w : Text} (h : w.map Char.toLower = "nan".toList) : DenotesBase w .nan

/-! ## Texts of the characters of names -/

section

variable {text : Text} (h : ∀ c ∈ text, isNamePart c)

include h

theorem trim_of_isNamePart : trim text = text := by
  have hstop {text : Text} (h : ∀ c ∈ text, isNamePart c) : text.dropWhile isWhiteSpace = text := by
    cases text with
    | nil => rfl
    | cons c cs =>
      have hc : isWhiteSpace c = false :=
        forall_isNamePart (p := fun c => isWhiteSpace c = false) (by decide) (h c List.mem_cons_self)
      rw [List.dropWhile_cons, hc]
      rfl
  rw [trim, hstop h, dropEndWhile, hstop fun c hc => h c (List.mem_reverse.1 hc), List.reverse_reverse]

theorem map_asciiDigit : text.map asciiDigit = text := by
  have hself : ∀ c ∈ text, asciiDigit c = id c := fun c hc =>
    forall_isNamePart (p := fun c => asciiDigit c = c) (by decide +kernel) (h c hc)
  rw [List.map_congr_left hself, List.map_id]

theorem splitSign_of_isNamePart : splitSign text = (false, text) := by
  match text with
  | [] => rfl
  | c :: cs =>
    have hc : c ≠ '-' ∧ c ≠ '+' :=
      forall_isNamePart (p := fun c => c ≠ '-' ∧ c ≠ '+') (by decide) (h c List.mem_cons_self)
    unfold splitSign
    split
    · rename_i heq
      exact absurd (List.cons.inj heq).1 hc.1
    · rename_i heq
      exact absurd (List.cons.inj heq).1 hc.2
    · rfl

end

/-! ## Digits and exponents -/

namespace Binary64

theorem ofNat_zero : ofNat 0 = zero := by
  have hzero := roundedUnits_of_representable false Nat.one_pos representable_zero
  rw [Nat.zero_mul] at hzero
  rw [ofNat, ofRatio, Nat.zero_mul, hzero]
  rfl

/-- Integers that are out of range are rounded to infinity. -/
theorem ofNat_of_le {n : Nat} (h : unitLimit ≤ n * unit) : ofNat n = .infinite false := by
  have hround : unitLimit ≤ roundUnits (n * unit) 1 := unitLimit_le_roundUnits Nat.one_pos (by rwa [Nat.mul_one])
  rw [ofNat, ofRatio, roundedUnits, ofUnits, dif_neg]
  exact fun hrange => absurd hrange.1 (Nat.not_lt.2 hround)

end Binary64

theorem unitLimit_le_ten_pow {places : Nat} (h : 309 ≤ places) : unitLimit ≤ 10 ^ places * Binary64.unit :=
  Nat.le_trans (by decide +kernel) (Nat.mul_le_mul_right _ (Nat.pow_le_pow_right (by decide) h))

/-- Integers of more than 309 digits are out of range. -/
theorem unitLimit_le_of_length {digits exponent : Nat} (hdigits : digits ≠ 0)
    (h : 310 ≤ (Nat.toDigits 10 digits).length + exponent) :
    unitLimit ≤ digits * 10 ^ exponent * Binary64.unit := by
  have hlower : 10 ^ ((Nat.toDigits 10 digits).length - 1) ≤ digits :=
    ten_pow_le_of_lt_length (Nat.pos_of_ne_zero hdigits) (Nat.sub_lt Nat.length_toDigits_pos Nat.one_pos)
  have hlimit : unitLimit ≤ 10 ^ ((Nat.toDigits 10 digits).length - 1 + exponent) * Binary64.unit :=
    unitLimit_le_ten_pow (by omega)
  rw [Nat.pow_add] at hlimit
  exact Nat.le_trans hlimit (Nat.mul_le_mul_right _ (Nat.mul_le_mul_right _ hlower))

/-- Digits scaled up are the integer that they denote, of whatever size it is. -/
theorem ofScientific_natCast (digits exponent : Nat) :
    ofScientific false digits exponent = .ofNat (digits * 10 ^ exponent) := by
  unfold ofScientific
  by_cases hzero : digits = 0
  · rw [if_pos hzero, hzero, Nat.zero_mul, Binary64.ofNat_zero]
    rfl
  rw [if_neg hzero]
  by_cases hlarge : 310 ≤ ((Nat.toDigits 10 digits).length : Int) + exponent
  · rw [if_pos hlarge, Binary64.ofNat_of_le (unitLimit_le_of_length hzero (by omega))]
  · rw [if_neg hlarge, if_neg (by omega), Int.toNat_natCast, Int.toNat_neg_natCast, Nat.pow_zero]
    rfl

/-! ## Numerals -/

theorem isNamePart_of_digits {ds : Text} (h : ∀ c ∈ ds, c.isDigit) : ∀ c ∈ ds, isNamePart c :=
  fun c hc => isNamePart_iff.2 (.inr (.inr (.inl (h c hc))))

section

variable {text : Text}

/-- Without a sign, an exponent is digits behind its mark. -/
theorem exponent?_cons {mark : Char} {es : Text} (h : ∀ c ∈ es, isNamePart c) :
    exponent? (mark :: es) = if IsExponent mark es then some (ofDigits 10 es : Int) else none := by
  rw [exponent?, splitSign_of_isNamePart h]
  by_cases hmark : mark = 'e' ∨ mark = 'E'
  · have hnot : ¬ (mark != 'e' && mark != 'E') := by rcases hmark with rfl | rfl <;> decide
    have hdigits : (es.isEmpty || !es.all Char.isDigit) = true ↔ ¬ IsExponent mark es := by
      simp [IsExponent, hmark, Classical.or_iff_not_imp_left]
    simp only [if_neg hnot, hdigits, ite_not]
    rfl
  · have hnot : mark != 'e' && mark != 'E' := by simpa [not_or] using hmark
    rw [if_pos hnot, if_neg fun h => hmark h.1]

/-- Without a point, the digits in front are all there are. -/
theorem scientific?_eq (h : ∀ c ∈ text, isNamePart c) :
    scientific? false text =
      if text.takeWhile Char.isDigit = [] then none
      else (exponent? (text.dropWhile Char.isDigit)).map
        (ofScientific false (ofDigits 10 (text.takeWhile Char.isDigit))) := by
  have hpoint : ∀ rest, text.dropWhile Char.isDigit ≠ '.' :: rest := by
    intro rest heq
    have hmem : '.' ∈ text := (List.dropWhile_sublist _).subset (heq ▸ List.mem_cons_self)
    exact absurd (h _ hmem) (by decide)
  rw [scientific?, List.span_eq_takeWhile_dropWhile]
  simp

/-- A text of such characters that is no word is digits, with an exponent or without. -/
theorem scientific?_sound (h : ∀ c ∈ text, isNamePart c) {value : Binary64}
    (hvalue : scientific? false text = some value) : DenotesBase text value := by
  rw [scientific?_eq h] at hvalue
  split at hvalue
  · cases hvalue
  rename_i hne
  obtain ⟨exponent, hexponent, rfl⟩ := Option.map_eq_some_iff.1 hvalue
  have hdigits : ∀ c ∈ text.takeWhile Char.isDigit, c.isDigit := fun c hc => List.mem_takeWhile_imp hc
  have hsplit := List.takeWhile_append_dropWhile (p := Char.isDigit) (l := text)
  generalize text.takeWhile Char.isDigit = ds at hne hdigits hsplit
  generalize text.dropWhile Char.isDigit = rest at hexponent hsplit
  subst hsplit
  cases rest with
  | nil =>
    obtain rfl : 0 = exponent := Option.some.inj hexponent
    have hvalue := ofScientific_natCast (ofDigits 10 ds) 0
    rw [Nat.pow_zero, Nat.mul_one] at hvalue
    rw [List.append_nil]
    exact hvalue ▸ .digits hne hdigits
  | cons mark es =>
    rw [exponent?_cons fun c hc => h c (List.mem_append_right _ (.tail _ hc))] at hexponent
    split at hexponent
    · rename_i hmark
      obtain rfl := Option.some.inj hexponent
      rw [ofScientific_natCast]
      exact .scientific hne hdigits hmark
    · cases hexponent

theorem IsExponent.not_isDigit {mark : Char} {es : Text} (h : IsExponent mark es) : mark.isDigit = false := by
  rcases h.1 with rfl | rfl <;> rfl

theorem exponent?_of_isExponent {mark : Char} {es : Text} (h : IsExponent mark es) :
    exponent? (mark :: es) = some (ofDigits 10 es : Int) := by
  rw [exponent?_cons (isNamePart_of_digits h.2.2), if_pos h]

/-- No digit begins a word. -/
theorem map_toLower_ne {ds rest : Text} (hne : ds ≠ []) (hds : ∀ c ∈ ds, c.isDigit) {first : Char} {word : Text}
    (hfirst : first = 'i' ∨ first = 'n') : (ds ++ rest).map Char.toLower ≠ first :: word := by
  obtain ⟨d, ds, rfl⟩ := List.exists_cons_of_ne_nil hne
  intro heq
  have hlower : d.toLower ≠ 'i' ∧ d.toLower ≠ 'n' :=
    forall_isNamePart (p := fun c => c.isDigit → c.toLower ≠ 'i' ∧ c.toLower ≠ 'n') (by decide)
      (isNamePart_of_digits hds d List.mem_cons_self) (hds d List.mem_cons_self)
  obtain ⟨rfl, -⟩ := List.cons.inj heq
  exact hfirst.elim hlower.1 hlower.2

theorem numeral?_eq (h : ∀ c ∈ text, isNamePart c) :
    numeral? text =
      if text.map Char.toLower = "inf".toList ∨ text.map Char.toLower = "infinity".toList then some (.infinite false)
      else if text.map Char.toLower = "nan".toList then some .nan else scientific? false text := by
  have hword (word : String) : String.ofList (text.map Char.toLower) = word ↔ text.map Char.toLower = word.toList := by
    rw [← String.toList_inj, String.toList_ofList]
  rw [numeral?, trim_of_isNamePart h, map_asciiDigit h, splitSign_of_isNamePart h]
  simp only [hword]

/-- Digits in front of an exponent, or of nothing, are read. -/
theorem numeral?_append {ds rest : Text} (h : ∀ c ∈ ds ++ rest, isNamePart c) (hne : ds ≠ [])
    (hds : ∀ c ∈ ds, c.isDigit) (hrest : ∀ c ∈ rest.head?, c.isDigit = false) {exponent : Nat}
    (hexponent : exponent? rest = some (exponent : Int)) :
    numeral? (ds ++ rest) = some (.ofNat (ofDigits 10 ds * 10 ^ exponent)) := by
  obtain ⟨htake, hdrop⟩ := takeWhile_append_stop hds hrest
  rw [numeral?_eq h, if_neg, if_neg, scientific?_eq h, htake, hdrop, if_neg hne, hexponent, Option.map_some,
    ofScientific_natCast]
  · exact map_toLower_ne hne hds (.inr rfl)
  · exact not_or.2 ⟨map_toLower_ne hne hds (.inl rfl), map_toLower_ne hne hds (.inl rfl)⟩

/-- **Which texts of the characters of names are numerals**, and what numbers they denote. -/
theorem numeral?_eq_some_iff (h : ∀ c ∈ text, isNamePart c) {value : Binary64} :
    numeral? text = some value ↔ DenotesBase text value := by
  constructor
  · intro hvalue
    rw [numeral?_eq h] at hvalue
    split at hvalue
    · rename_i hword
      exact Option.some.inj hvalue ▸ .infinity hword
    · split at hvalue
      · rename_i hword
        exact Option.some.inj hvalue ▸ .nan hword
      · exact scientific?_sound h hvalue
  · intro hbase
    cases hbase with
    | digits hne hds =>
      rw [← List.append_nil text] at h
      have hread := numeral?_append h hne hds (by simp) (show exponent? [] = some ((0 : Nat) : Int) from rfl)
      rwa [List.append_nil, Nat.pow_zero, Nat.mul_one] at hread
    | scientific hne hds hes =>
      exact numeral?_append h hne hds (by simpa using hes.not_isDigit) (exponent?_of_isExponent hes)
    | infinity hword => rw [numeral?_eq h, if_pos hword]
    | nan hword =>
      rw [numeral?_eq h, hword]
      rfl

/-- No base has an underscore. -/
theorem DenotesBase.underscore_notMem {value : Binary64} (h : DenotesBase text value) : '_' ∉ text := by
  have hdigits {ds : Text} (hds : ∀ c ∈ ds, c.isDigit) : '_' ∉ ds := fun hmem => absurd (hds _ hmem) (by decide)
  have hword {word : Text} (heq : text.map Char.toLower = word) (hnot : '_' ∉ word) : '_' ∉ text := by
    intro hmem
    exact hnot (heq ▸ List.mem_map_of_mem (f := Char.toLower) hmem)
  cases h with
  | digits _ hds => exact hdigits hds
  | @scientific ds es mark _ hds hes =>
    have hmark : '_' ≠ mark := by rcases hes.1 with rfl | rfl <;> decide
    simp [hdigits hds, hdigits hes.2.2, hmark]
  | infinity heq =>
    rcases heq with heq | heq
    · exact hword heq (by decide)
    · exact hword heq (by decide)
  | nan heq => exact hword heq (by decide)

end

end Calculator
