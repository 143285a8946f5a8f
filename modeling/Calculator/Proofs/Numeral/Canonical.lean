/-
Expansions in base 2 and 16 are canonical, and denote their numbers.

- `exactValue`, `denoted`: the rational number that digits with a point, and a text, denote;
- `IsCanonical`: a sign for numbers below zero only, no zero in front, none at the end of a fraction;
- `denoted_expansion`: an expansion denotes its number, in each of these bases;
- `expansion_canonical`: expansions are what the loops over the digits find, are canonical, and only equal numbers have
  the same one.
-/
import Calculator.Proofs.Numeral.Loops
import Mathlib.Data.List.TakeWhile

namespace Calculator

open Binary64

/-! ## What texts denote -/

/-- the rational number that digits before a point and behind it denote -/
def exactValue (base : Nat) (whole fraction : Text) : ℚ :=
  ofDigits base whole + ofDigits base fraction / (base : ℚ) ^ fraction.length

/-- the rational number that digits with a point among them or without one denote -/
def denotedUnsigned (base : Nat) (text : Text) : ℚ :=
  exactValue base (text.takeWhile (· != '.')) (text.dropWhile (· != '.')).tail

/-- the rational number that a text denotes, with a minus sign in front or without one -/
def denoted (base : Nat) : Text → ℚ
  | '-' :: text => -denotedUnsigned base text
  | text => denotedUnsigned base text

theorem denotedUnsigned_pointed {base : Nat} {whole fraction : Text} (hwhole : '.' ∉ whole) :
    denotedUnsigned base (pointed whole fraction) = exactValue base whole fraction := by
  have hbefore : ∀ c ∈ whole, (c != '.') = true := fun c hc => bne_iff_ne.2 fun heq => hwhole (heq ▸ hc)
  cases fraction with
  | nil =>
    have hpointed : pointed whole [] = whole := rfl
    rw [denotedUnsigned, hpointed, List.takeWhile_eq_self_iff.2 hbefore, List.dropWhile_eq_nil_iff.2 hbefore]
    rfl
  | cons c cs =>
    have hpointed : pointed whole (c :: cs) = whole ++ '.' :: c :: cs := rfl
    rw [denotedUnsigned, hpointed, List.takeWhile_append_of_pos hbefore, List.dropWhile_append_of_pos hbefore]
    simp

theorem denoted_of_head {base : Nat} {text : Text} (h : text.head? ≠ some '-') :
    denoted base text = denotedUnsigned base text := by
  unfold denoted
  split
  · exact absurd rfl h
  · rfl

namespace Radix

theorem exactValue_expansion (radix : Radix) (units : Nat) :
    exactValue radix.base (radix.wholeDigits units) (radix.placeDigits units) = (units : ℚ) / unit := by
  have hunit : (unit : ℚ) ≠ 0 := ne_of_gt cast_unit_pos
  have hbase : (radix.base : ℚ) ^ (radix.placeDigits units).length ≠ 0 :=
    pow_ne_zero _ (Nat.cast_ne_zero.2 (Nat.ne_of_gt radix.base_pos))
  have hplaces : (ofDigits radix.base (radix.placeDigits units) : ℚ) * unit =
      (units % unit : Nat) * (radix.base : ℚ) ^ (radix.placeDigits units).length := by
    exact_mod_cast radix.ofDigits_placeDigits units
  have hparts : ((units / unit : Nat) : ℚ) * unit + (units % unit : Nat) = units := by
    exact_mod_cast Nat.div_add_mod' units unit
  rw [exactValue, ofDigits_wholeDigits, (div_eq_div_iff hbase hunit).2 hplaces, ← hparts, add_div,
    mul_div_cancel_right₀ _ hunit]

end Radix

/-! ## Digits of canonical texts -/

/-- a digit as it is displayed, the letters in lower case -/
def IsDisplayed (radix : Radix) (c : Char) : Prop := ∃ d < radix.base, c = d.digitChar

theorem IsDisplayed.isDigit {radix : Radix} {c : Char} (h : IsDisplayed radix c) : radix.isDigit c := by
  obtain ⟨d, hd, rfl⟩ := h
  exact radix.isDigit_digitChar hd

theorem Radix.ne_of_isDigit {radix : Radix} {c : Char} (h : radix.isDigit c) : c ≠ '.' ∧ c ≠ '-' := by
  constructor
  · rintro rfl
    cases radix <;> exact absurd h (by decide)
  · rintro rfl
    cases radix <;> exact absurd h (by decide)

theorem digitChar_ne_zero {d : Nat} (hd : d < 16) (h : d ≠ 0) : d.digitChar ≠ '0' := by
  intro heq
  have hvalue := digitValue_digitChar hd
  rw [heq] at hvalue
  exact h hvalue.symm

/-- An integer that is not zero has no zero in front. -/
theorem head?_toDigits_ne {base : Nat} (hb : 1 < base) (hle : base ≤ 16) {n : Nat} (hn : n ≠ 0) :
    (Nat.toDigits base n).head? ≠ some '0' := by
  induction n using Nat.base_induction base hb with
  | single d hd =>
    rw [Nat.toDigits_of_lt_base hd]
    exact fun heq => digitChar_ne_zero (Nat.lt_of_lt_of_le hd hle) hn (Option.some.inj heq)
  | digit n d hd hpos ih =>
    rw [← Nat.toDigits_append_toDigits hb hpos hd, List.head?_append_of_ne_nil _ Nat.toDigits_ne_nil]
    exact ih (Nat.ne_of_gt hpos)

/-- A fraction has no zero at its end. -/
theorem getLast?_fractionDigits_ne {base : Nat} (hb : 0 < base) (hle : base ≤ 16) {places n : Nat}
    (h : n < base ^ places) : (fractionDigits base places n).getLast? ≠ some '0' := by
  induction places generalizing n with
  | zero => simp [fractionDigits]
  | succ places ih =>
    by_cases hn : n = 0
    · simp [hn, fractionDigits_zero]
    have hmod : n % base ^ places < base ^ places := Nat.mod_lt _ (Nat.pow_pos hb)
    rw [fractionDigits_succ _ _ hn]
    by_cases hrest : n % base ^ places = 0
    · -- The last digit is what is left of a number that is not zero.
      have hdigit : n / base ^ places ≠ 0 := by
        intro hzero
        have hparts := Nat.div_add_mod n (base ^ places)
        rw [hzero, hrest, Nat.mul_zero] at hparts
        exact hn hparts.symm
      rw [hrest, fractionDigits_zero]
      exact fun heq => digitChar_ne_zero (Nat.lt_of_lt_of_le (div_lt_base h) hle) hdigit (Option.some.inj heq)
    · have hne := fractionDigits_ne_nil hmod hrest
      rw [List.getLast?_cons, List.getLast?_eq_some_getLast hne, Option.getD_some,
        ← List.getLast?_eq_some_getLast hne]
      exact ih hmod

/-! ## Canonical texts -/

/-- The canonical text of a number. A minus sign stands in front of a number below zero only, then come the digits of
the whole part, without a zero in front unless that is all of it. A number that is no integer has a point, and digits
behind it of which the last is not a zero. -/
inductive IsCanonical (radix : Radix) (x : Binary64) : Text → Prop where
  | intro {whole fraction : Text} (hwhole : ∀ c ∈ whole, IsDisplayed radix c)
      (hfraction : ∀ c ∈ fraction, IsDisplayed radix c) (hne : whole ≠ [])
      (hfront : whole.head? = some '0' → whole = ['0']) (hplaces : fraction ≠ [] ↔ x.integer? = none)
      (hend : fraction.getLast? ≠ some '0') :
      IsCanonical radix x ((if x.lt zero then ['-'] else []) ++ pointed whole fraction)

namespace Binary64

section

variable {radix : Radix}

theorem expansion_eq {negative : Bool} {units : Nat} (h : Representable units) :
    (finite negative units h).expansion radix = (if (finite negative units h).lt zero then ['-'] else []) ++
      pointed (radix.wholeDigits units) (radix.placeDigits units) := by
  rw [expansion, Radix.expansion_eq_pointed, signText_eq]

theorem displayed_wholeDigits (units : Nat) : ∀ c ∈ radix.wholeDigits units, IsDisplayed radix c :=
  forall_mem_toDigits radix.one_lt_base (fun d hd => ⟨d, hd, rfl⟩) _

theorem isCanonical_expansion {x : Binary64} (hx : x.isFinite) : IsCanonical radix x (x.expansion radix) := by
  obtain ⟨s, u, h, rfl⟩ := exists_finite_of_isFinite hx
  have hbase : 0 < radix.base := radix.base_pos
  rw [expansion_eq]
  have hdisplayed : ∀ c ∈ radix.placeDigits u, IsDisplayed radix c :=
    forall_mem_fractionDigits hbase (fun d hd => ⟨d, hd, rfl⟩) (radix.scaled_lt u)
  have hend := getLast?_fractionDigits_ne hbase radix.base_le (radix.scaled_lt u)
  refine .intro (displayed_wholeDigits u) hdisplayed Nat.toDigits_ne_nil ?_ ?_ hend
  · intro hzero
    by_cases hwhole : u / unit = 0
    · rw [Radix.wholeDigits, hwhole, Nat.toDigits_of_lt_base hbase]
      rfl
    · exact absurd hzero (head?_toDigits_ne radix.one_lt_base radix.base_le hwhole)
  · have hinteger : (finite s u h).integer? = none ↔ u % unit ≠ 0 := by simp [integer?]
    rw [hinteger]
    constructor
    · intro hne hzero
      exact hne (by rw [Radix.placeDigits, hzero, Nat.zero_mul, fractionDigits_zero])
    · intro hne
      exact fractionDigits_ne_nil (radix.scaled_lt u) (Nat.mul_ne_zero hne (Nat.ne_of_gt radix.fractionPlaces_pos))

/-- **An expansion denotes its number.** -/
theorem denoted_expansion {x : Binary64} (hx : x.isFinite) : denoted radix.base (x.expansion radix) = x.toRat := by
  obtain ⟨s, u, h, rfl⟩ := exists_finite_of_isFinite hx
  have hdigit : ∀ c ∈ radix.wholeDigits u, c ≠ '.' ∧ c ≠ '-' := fun c hc =>
    Radix.ne_of_isDigit (displayed_wholeDigits u c hc).isDigit
  have hvalue : denotedUnsigned radix.base (pointed (radix.wholeDigits u) (radix.placeDigits u)) = (u : ℚ) / unit := by
    rw [denotedUnsigned_pointed fun hmem => (hdigit _ hmem).1 rfl, radix.exactValue_expansion]
  have hhead : (pointed (radix.wholeDigits u) (radix.placeDigits u)).head? ≠ some '-' := by
    obtain ⟨c, cs, hcs⟩ := List.exists_cons_of_ne_nil (Nat.toDigits_ne_nil (b := radix.base) (n := u / unit))
    have hwhole : radix.wholeDigits u = c :: cs := hcs
    have hc : c ≠ '-' := (hdigit c (hwhole ▸ List.mem_cons_self)).2
    rw [hwhole]
    cases radix.placeDigits u with
    | nil => simpa [pointed] using hc
    | cons d ds => simpa [pointed] using hc
  rw [expansion_eq]
  by_cases hnegative : (finite s u h).lt zero
  · obtain ⟨rfl, -⟩ := lt_zero_iff.1 hnegative
    rw [if_pos hnegative, toRat_negative, ← hvalue]
    rfl
  · rw [if_neg hnegative, List.nil_append, denoted_of_head hhead, hvalue]
    cases s with
    | false => rw [toRat_positive]
    | true =>
      obtain rfl : u = 0 := by simpa [lt_zero_iff] using hnegative
      simp [toRat, signedUnits]

/-- Equal numbers have the same expansion, and no others have. -/
theorem expansion_eq_iff {x y : Binary64} (hx : x.isFinite) (hy : y.isFinite) :
    x.expansion radix = y.expansion radix ↔ x.ieeeEq y := by
  constructor
  · intro heq
    have hdenoted : denoted radix.base (x.expansion radix) = denoted radix.base (y.expansion radix) := by rw [heq]
    rw [denoted_expansion hx, denoted_expansion hy] at hdenoted
    exact (ieeeEq_iff_toRat hx hy).2 hdenoted
  · intro heq
    obtain ⟨s, u, h, rfl⟩ := exists_finite_of_isFinite hx
    obtain ⟨t, v, h', rfl⟩ := exists_finite_of_isFinite hy
    have hsigned : signedUnits s u = signedUnits t v := by simpa [ieeeEq] using heq
    obtain rfl : u = v := by cases s <;> cases t <;> simp [signedUnits] at hsigned <;> omega
    have hsign : (finite s u h).lt zero = (finite t u h').lt zero := by
      show decide (signedUnits s u < signedUnits false 0) = decide (signedUnits t u < signedUnits false 0)
      rw [hsigned]
    rw [expansion_eq, expansion_eq, hsign]

/-- **Expansions are canonical.** In base 2 and 16 both loops over the digits of a finite number end, with the text that
is its expansion and no other. It is canonical and denotes the number, in one of the bases as in the other, and two
numbers have the same text only if they are equal. -/
theorem expansion_canonical (hradix : radix ≠ .decimal) {x : Binary64} (hx : x.isFinite) :
    (∀ text, Expands radix x text ↔ text = x.expansion radix) ∧ IsCanonical radix x (x.expansion radix) ∧
      denoted radix.base (x.expansion radix) = x.toRat ∧
      denoted Radix.hexadecimal.base (x.expansion .hexadecimal) = denoted Radix.binary.base (x.expansion .binary) ∧
      ∀ y, y.isFinite → (x.expansion radix = y.expansion radix ↔ x.ieeeEq y) := by
  have hloops := expands_expansion hradix hx
  refine ⟨fun text => ⟨fun h => h.unique hloops, ?_⟩, isCanonical_expansion hx, denoted_expansion hx, ?_,
    fun y hy => expansion_eq_iff hx hy⟩
  · rintro rfl
    exact hloops
  · rw [denoted_expansion hx, denoted_expansion hx]

/-- The number `-12.1875`, in base 16: twelve is one digit, and three sixteenths are another. -/
theorem expansion_canonical_threeSixteenths :
    Radix.hexadecimal ≠ .decimal ∧ (ofRatio true 195 16).isFinite ∧
      Expands .hexadecimal (ofRatio true 195 16) "-c.3".toList := by
  have hfinite : (ofRatio true 195 16).isFinite := by decide +kernel
  have htext : "-c.3".toList = (ofRatio true 195 16).expansion .hexadecimal := by decide +kernel
  exact ⟨by decide, hfinite, ((expansion_canonical (by decide) hfinite).1 _).2 htext⟩

end

end Binary64

end Calculator
