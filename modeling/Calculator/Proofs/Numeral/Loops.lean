/-
The loops that find the digits of a number.

Divided by the base, an integer leaves its last digit. Multiplied by the base, a fraction has its next digit in front of
the point. In base 2 and 16 no product of a fraction and the base is rounded, and each has one place less than the
fraction before, so that every fraction runs out, after at most as many turns as the least number has places.

- `FractionLoop`, `WholeLoop`, `Expands`: a run of the loop over a fraction, of that over an integer, and the text that
  is put together from both; there is one at most (`Expands.unique`);
- `FractionLoop.fractionDigits`, `WholeLoop.toDigits`: there is one, and it ends with the digits that are displayed;
- `expands_expansion`: the text that is put together is the expansion.
-/
import Calculator.Binary64.Integral
import Calculator.Proofs.Binary64.Rational
import Calculator.Proofs.Numeral.Expansion

namespace Calculator

open Binary64

/-! ## The fraction -/

/-- The product of a magnitude and a power of two is a magnitude, unless it is out of range. -/
theorem representable_mul_two_pow {units places : Nat} (h : Representable units)
    (hrange : units * 2 ^ places < unitLimit) : Representable (units * 2 ^ places) := by
  have hlt : units < 2 ^ (excess units + 53) :=
    Nat.lt_of_lt_of_le Nat.lt_log2_self (Nat.pow_le_pow_right Nat.two_pos (by unfold excess; omega))
  refine representable_of_dvd hrange (e := excess units + places) ?_ ?_
  · calc units * 2 ^ places < 2 ^ (excess units + 53) * 2 ^ places :=
          Nat.mul_lt_mul_of_pos_right hlt (Nat.two_pow_pos _)
      _ = 2 ^ (excess units + places + 53) := by rw [← Nat.pow_add, Nat.add_right_comm]
  · rw [Nat.pow_add]
    exact Nat.mul_dvd_mul_right h.2 _

theorem finite_mul_finite {s t : Bool} {u v : Nat} (hu : Representable u) (hv : Representable v) :
    Binary64.finite s u hu * .finite t v hv = roundedUnits (s != t) (u * v) unit := by
  show mul _ _ = _
  rw [mul]

namespace Radix

/-- the bits of a digit, in a radix that is a power of two -/
def digitBits : Radix → Nat
  | decimal => 0
  | hexadecimal => 4
  | binary => 1

section

variable {radix : Radix} (hradix : radix ≠ .decimal)

include hradix

theorem base_eq : radix.base = 2 ^ radix.digitBits := by
  cases radix with
  | decimal => exact absurd rfl hradix
  | hexadecimal => rfl
  | binary => rfl

theorem representable_mul_base {units : Nat} (h : Representable units) (hunits : units ≤ unit) :
    Representable (units * radix.base) := by
  have hbits : radix.digitBits < 1024 := by cases radix <;> decide
  rw [base_eq hradix]
  refine representable_mul_two_pow h ?_
  calc units * 2 ^ radix.digitBits ≤ unit * 2 ^ radix.digitBits := Nat.mul_le_mul_right _ hunits
    _ = 2 ^ (unitPlaces + radix.digitBits) := (Nat.pow_add ..).symm
    _ < unitLimit := Nat.pow_lt_pow_right Nat.one_lt_two (Nat.add_lt_add_left hbits _)

/-- The product of a fraction and the base is not rounded. -/
theorem mul_base {units : Nat} (h : Representable units) (hunits : units ≤ unit) :
    Binary64.finite false units h * .ofNat radix.base =
      .finite false (units * radix.base) (representable_mul_base hradix h hunits) := by
  have hbase : Representable (unit * radix.base) := representable_mul_base hradix representable_unit (Nat.le_refl _)
  have hround := roundedUnits_of_representable false unit_pos (representable_mul_base hradix h hunits)
  rw [Nat.mul_right_comm, Nat.mul_assoc] at hround
  rw [Binary64.ofNat, ofRatio_of_eq Nat.one_pos hbase (by rw [Nat.mul_one, Nat.mul_comm]), finite_mul_finite]
  exact hround

end

end Radix

/-- the fraction of a number and its whole part, each with the sign of the number -/
def Binary64.modf : Binary64 → Binary64 × Binary64
  | finite s u h =>
    (.finite s (u % unit) (representable_fraction h), .finite s (u / unit * unit) (representable_whole h))
  | infinite s => (.finite s 0 representable_zero, .infinite s)
  | nan => (.nan, .nan)

/-- The loop over a fraction. While it is not zero it is multiplied by the base: the whole part of the product is a
digit, and what is behind its point is the fraction that is left. -/
inductive FractionLoop (base : Nat) : Binary64 → Text → Prop where
  | done {x : Binary64} (hzero : x.isZero) : FractionLoop base x []
  | digit {x : Binary64} {d : Nat} {ds : Text} (hzero : x.isZero = false)
      (hdigit : (x * .ofNat base).modf.2.integer? = some (d : Int))
      (hrest : FractionLoop base (x * .ofNat base).modf.1 ds) : FractionLoop base x (d.digitChar :: ds)

/-- A fraction has one run of the loop. -/
theorem FractionLoop.unique {base : Nat} {x : Binary64} {ds es : Text} (hds : FractionLoop base x ds)
    (hes : FractionLoop base x es) : ds = es := by
  induction hds generalizing es with
  | done hzero =>
    cases hes with
    | done => rfl
    | digit hnot => rw [hzero] at hnot; cases hnot
  | digit hzero hdigit _ ih =>
    cases hes with
    | done hnot => rw [hzero] at hnot; cases hnot
    | digit _ hdigit' hrest' =>
      have hsame := Int.ofNat_inj.1 (Option.some.inj (hdigit.symm.trans hdigit'))
      rw [hsame, ih hrest']

/-- The whole part of a number of so many units, when it is not below zero. -/
theorem integer?_whole {units : Nat} (h : Representable units) :
    (Binary64.finite false units h).modf.2.integer? = some ((units / unit : Nat) : Int) := by
  show integer? (.finite false (units / unit * unit) _) = _
  rw [integer?, if_pos (Nat.mul_mod_left _ _), Nat.mul_div_cancel _ unit_pos]
  rfl

/-- One turn of the loop takes the first of the places of a fraction. -/
theorem shift_fraction {places n units base : Nat} (hbase : 0 < base) (h : n * unit = units * base ^ (places + 1)) :
    n / base ^ places = units * base / unit ∧ n % base ^ places * unit = units * base % unit * base ^ places := by
  have hpow : 0 < base ^ places := Nat.pow_pos hbase
  have hshift : n * unit = units * base * base ^ places := by rw [h, Nat.pow_succ]; ac_rfl
  constructor
  · calc n / base ^ places = n * unit / (base ^ places * unit) := (Nat.mul_div_mul_right _ _ unit_pos).symm
      _ = units * base * base ^ places / (unit * base ^ places) := by rw [hshift, Nat.mul_comm unit]
      _ = units * base / unit := Nat.mul_div_mul_right _ _ hpow
  · calc n % base ^ places * unit = n * unit % (base ^ places * unit) := (Nat.mul_mod_mul_right ..).symm
      _ = units * base * base ^ places % (unit * base ^ places) := by rw [hshift, Nat.mul_comm unit]
      _ = units * base % unit * base ^ places := Nat.mul_mod_mul_right ..

/-- **The loop over a fraction ends**, with the digits of the fraction: a turn leaves one place less. -/
theorem FractionLoop.fractionDigits {radix : Radix} (hradix : radix ≠ .decimal) {places n units : Nat}
    (h : Representable units) (hunits : units < unit) (hplaces : n * unit = units * radix.base ^ places) :
    FractionLoop radix.base (.finite false units h) (fractionDigits radix.base places n) := by
  have hbase : 0 < radix.base := radix.base_pos
  induction places generalizing n units with
  | zero =>
    obtain rfl : n = 0 := by
      refine Nat.eq_zero_of_not_pos fun hn => Nat.not_lt.2 (Nat.le_mul_of_pos_left unit hn) ?_
      rwa [hplaces, Nat.pow_zero, Nat.mul_one]
    obtain rfl : 0 = units := by simpa using hplaces
    exact .done rfl
  | succ places ih =>
    by_cases hzero : units = 0
    · obtain rfl : n = 0 := by simpa [hzero, Nat.ne_of_gt unit_pos] using hplaces
      rw [fractionDigits_zero]
      exact .done (by simp [isZero, hzero])
    have hn : n ≠ 0 := by
      rintro rfl
      rw [Nat.zero_mul] at hplaces
      exact Nat.ne_of_gt (Nat.mul_pos (Nat.pos_of_ne_zero hzero) (Nat.pow_pos hbase)) hplaces.symm
    obtain ⟨hdigit, hrest⟩ := shift_fraction hbase hplaces
    have hproduct := Radix.mul_base hradix h (Nat.le_of_lt hunits)
    rw [fractionDigits_succ _ _ hn, hdigit]
    refine .digit (by simpa [isZero] using hzero) ?_ ?_
    · rw [hproduct, integer?_whole]
    · rw [hproduct]
      exact ih (representable_fraction (Radix.representable_mul_base hradix h (Nat.le_of_lt hunits)))
        (Nat.mod_lt _ unit_pos) hrest

/-! ## The whole part -/

/-- The loop over an integer. While it is not zero it is divided by the base, and the remainder is a digit. -/
inductive WholeLoop (base : Nat) : Nat → Text → Prop where
  | done : WholeLoop base 0 []
  | digit {n : Nat} {ds : Text} (hn : n ≠ 0) (hrest : WholeLoop base (n / base) ds) :
      WholeLoop base n ((n % base).digitChar :: ds)

/-- An integer has one run of the loop. -/
theorem WholeLoop.unique {base n : Nat} {ds es : Text} (hds : WholeLoop base n ds) (hes : WholeLoop base n es) :
    ds = es := by
  induction hds generalizing es with
  | done =>
    cases hes with
    | done => rfl
    | digit hn => exact absurd rfl hn
  | digit hn _ ih =>
    cases hes with
    | done => exact absurd rfl hn
    | digit _ hrest' => rw [ih hrest']

/-- **The loop over an integer ends**, with its digits, the last one first. -/
theorem WholeLoop.toDigits {base : Nat} (hbase : 1 < base) {n : Nat} (hn : n ≠ 0) :
    WholeLoop base n (Nat.toDigits base n).reverse := by
  induction n using Nat.base_induction base hbase with
  | single d hd =>
    have hrest : WholeLoop base (d / base) [] := by
      rw [Nat.div_eq_of_lt hd]
      exact .done
    have hdigit := WholeLoop.digit hn hrest
    rwa [Nat.mod_eq_of_lt hd, ← List.reverse_singleton, ← Nat.toDigits_of_lt_base hd] at hdigit
  | digit n d hd hpos ih =>
    have hquotient : (base * n + d) / base = n := by
      rw [Nat.mul_add_div (Nat.lt_trans Nat.zero_lt_one hbase), Nat.div_eq_of_lt hd, Nat.add_zero]
    have hrest : WholeLoop base ((base * n + d) / base) (Nat.toDigits base n).reverse := by
      rw [hquotient]
      exact ih (Nat.ne_of_gt hpos)
    rw [← Nat.toDigits_append_toDigits hbase hpos hd, List.reverse_append, Nat.toDigits_of_lt_base hd]
    have hdigit := WholeLoop.digit hn hrest
    rwa [Nat.mul_add_mod, Nat.mod_eq_of_lt hd] at hdigit

/-- What the loop over an integer collects is turned round; of zero it collects nothing. -/
def wholeText (digits : Text) : Text := if digits.isEmpty then ['0'] else digits.reverse

theorem exists_wholeLoop {base : Nat} (hbase : 1 < base) (n : Nat) :
    ∃ digits, WholeLoop base n digits ∧ wholeText digits = Nat.toDigits base n := by
  by_cases hn : n = 0
  · subst hn
    exact ⟨[], .done, (Nat.toDigits_of_lt_base (Nat.lt_trans Nat.zero_lt_one hbase)).symm⟩
  · refine ⟨_, .toDigits hbase hn, ?_⟩
    have hne : (Nat.toDigits base n).reverse.isEmpty = false := by simp [Nat.toDigits_ne_nil]
    rw [wholeText, hne, List.reverse_reverse]
    rfl

/-! ## Both loops -/

/-- The text of a number as the loops put it together: a minus sign below zero, the digits of the whole part, and behind
a point those of the fraction, unless there is none. -/
inductive Expands (radix : Radix) (x : Binary64) : Text → Prop where
  | intro {n : Nat} {whole fraction : Text} (hn : x.abs.modf.2.integer? = some (n : Int))
      (hwhole : WholeLoop radix.base n whole) (hfraction : FractionLoop radix.base x.abs.modf.1 fraction) :
      Expands radix x ((if x.lt zero then ['-'] else []) ++ wholeText whole ++
        (if x.abs.modf.1.isZero then [] else '.' :: fraction))

/-- A number has one text. -/
theorem Expands.unique {radix : Radix} {x : Binary64} {text text' : Text} (h : Expands radix x text)
    (h' : Expands radix x text') : text = text' := by
  obtain ⟨hn, hwhole, hfraction⟩ := h
  obtain ⟨hn', hwhole', hfraction'⟩ := h'
  obtain rfl := Int.ofNat_inj.1 (Option.some.inj (hn.symm.trans hn'))
  rw [hwhole.unique hwhole', hfraction.unique hfraction']

/-- A number below zero has a sign. -/
theorem signText_eq {negative : Bool} {units : Nat} {h : Representable units} :
    signText negative units = if (Binary64.finite negative units h).lt zero then ['-'] else [] := by
  simp only [signText, lt_zero_iff]

/-- **Both loops end**, and the text that they put together is the expansion. -/
theorem expands_expansion {radix : Radix} (hradix : radix ≠ .decimal) {x : Binary64} (hx : x.isFinite) :
    Expands radix x (x.expansion radix) := by
  obtain ⟨s, u, h, rfl⟩ := exists_finite_of_isFinite hx
  obtain ⟨digits, hloop, hdigits⟩ := exists_wholeLoop radix.one_lt_base (u / unit)
  have hfraction : FractionLoop radix.base (Binary64.finite false u h).modf.1 (radix.placeDigits u) := by
    refine .fractionDigits hradix (representable_fraction h) (Nat.mod_lt _ unit_pos) ?_
    rw [radix.base_pow_fractionPlaces, Nat.mul_assoc]
  have hexpands : Expands radix (.finite s u h) _ := .intro (integer?_whole h) hloop hfraction
  rw [← signText_eq, hdigits] at hexpands
  have hzero : (Binary64.finite s u h).abs.modf.1.isZero = (u % unit == 0) := rfl
  rw [hzero, List.append_assoc] at hexpands
  rw [expansion, Radix.expansion]
  by_cases hwhole : u % unit = 0
  · simpa [hwhole] using hexpands
  · simpa [hwhole, Radix.placeDigits] using hexpands

end Calculator
