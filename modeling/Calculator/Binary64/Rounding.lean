/-
Rounding to the nearest magnitude, a half to the even neighbour.

`roundDiv` rounds a quotient of naturals to an integer. `roundUnits` rounds it to the grid on which magnitudes of its
size lie. Every operation whose exact result may leave the format computes that result as a quotient and rounds once.

- `representable_roundUnits`: the rounded count of units is a magnitude, or it is out of range;
- `roundUnits_of_representable`: a magnitude rounds to itself, so an exact result is not changed.
-/
import Calculator.Binary64.Basic

namespace Calculator

/-- the integer nearest to `num / den`; a half goes to the even neighbour -/
def roundDiv (num den : Nat) : Nat :=
  let quotient := num / den
  let rest := num % den
  if 2 * rest < den then quotient
  else if den < 2 * rest then quotient + 1
  else quotient + quotient % 2

theorem le_roundDiv (num den : Nat) : num / den ≤ roundDiv num den := by
  unfold roundDiv; simp only; split
  · exact Nat.le_refl _
  · split <;> omega

theorem roundDiv_le (num den : Nat) : roundDiv num den ≤ num / den + 1 := by
  unfold roundDiv; simp only; split
  · omega
  · split <;> omega

/-- A quotient is rounded to one of its two neighbours. -/
theorem roundDiv_eq_or (num den : Nat) : roundDiv num den = num / den ∨ roundDiv num den = num / den + 1 := by
  have h1 := le_roundDiv num den
  have h2 := roundDiv_le num den
  omega

theorem roundDiv_mul (n : Nat) {den : Nat} (h : 0 < den) : roundDiv (n * den) den = n := by
  simp [roundDiv, h]

/-- the count of units, on the grid of the format, that is nearest to `num / den` units -/
def roundUnits (num den : Nat) : Nat :=
  let step := 2 ^ excess (num / den)
  roundDiv num (den * step) * step

theorem roundUnits_lt (num den : Nat) : roundUnits num den ≤ 2 ^ (excess (num / den) + 53) := by
  have hstep : num / (den * 2 ^ excess (num / den)) < 2 ^ 53 := by
    rw [← Nat.div_div_eq_div_mul, Nat.div_lt_iff_lt_mul (Nat.two_pow_pos _), ← Nat.pow_add]
    refine Nat.lt_of_lt_of_le Nat.lt_log2_self (Nat.pow_le_pow_right (by decide) ?_)
    unfold excess; omega
  have := roundDiv_le num (den * 2 ^ excess (num / den))
  rw [Nat.add_comm, Nat.pow_add]
  exact Nat.mul_le_mul_right _ (by omega)

/-- Rounding ends on the grid: what it gives is a magnitude, unless it is out of range. -/
theorem representable_roundUnits {num den : Nat} (h : roundUnits num den < unitLimit) :
    Representable (roundUnits num den) := by
  have hdvd : 2 ^ excess (num / den) ∣ roundUnits num den := Nat.dvd_mul_left _ _
  rcases Nat.lt_or_eq_of_le (roundUnits_lt num den) with hlt | heq
  · exact representable_of_dvd h hlt hdvd
  · refine representable_of_dvd (e := excess (num / den) + 1) h ?_ ?_
    · rw [heq]; exact Nat.pow_lt_pow_right (by decide) (by omega)
    · rw [heq]; exact Nat.pow_dvd_pow 2 (by omega)

/-- What needs no rounding is not changed. -/
theorem roundUnits_of_representable {units den : Nat} (hden : 0 < den) (h : Representable units) :
    roundUnits (units * den) den = units := by
  obtain ⟨n, hn⟩ := h.2
  have hdiv : units * den / den = units := Nat.mul_div_cancel _ hden
  unfold roundUnits
  simp only [hdiv]
  have hnum : units * den = n * (den * 2 ^ excess units) := by
    conv => lhs; rw [hn]
    rw [Nat.mul_comm (2 ^ excess units) n, Nat.mul_assoc, Nat.mul_comm (2 ^ excess units) den]
  rw [hnum, roundDiv_mul n (Nat.mul_pos hden (Nat.two_pow_pos _)), Nat.mul_comm]
  exact hn.symm

namespace Binary64

/-- the number nearest to `± num / den` units -/
def roundedUnits (negative : Bool) (num den : Nat) : Binary64 := ofUnits negative (roundUnits num den)

/-- Rounding is exact where the exact result is a number. -/
theorem roundedUnits_of_representable {units den : Nat} (negative : Bool) (hden : 0 < den) (h : Representable units) :
    roundedUnits negative (units * den) den = .finite negative units h := by
  unfold roundedUnits
  simp only [roundUnits_of_representable hden h, ofUnits_of_representable negative h]

/-- the number nearest to `± num / den` -/
def ofRatio (negative : Bool) (num den : Nat) : Binary64 := roundedUnits negative (num * unit) den

/-- the number nearest to an integer; zero is positive -/
def ofInt (n : Int) : Binary64 := ofRatio (n < 0) n.natAbs 1

def ofNat (n : Nat) : Binary64 := ofRatio false n 1

end Binary64

end Calculator
