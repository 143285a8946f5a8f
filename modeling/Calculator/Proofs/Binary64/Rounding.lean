/-
Rounding keeps the order.

Quotients are compared by cross products, so that they stay naturals. On one grid, rounding to the nearest integer keeps
the order, ties included. On a coarser grid every count of units is at least the power of two at which that grid begins,
and nothing on a finer one is above it.

- `roundDiv_mono`: rounding to integers keeps the order;
- `roundUnits_mono`: so does rounding to magnitudes.
-/
import Calculator.Binary64.Rounding

namespace Calculator

section

variable {num den num' den' : Nat} (hden : 0 < den) (hden' : 0 < den') (h : num * den' ≤ num' * den)

include hden hden' h

theorem div_le_div_of_mul_le : num / den ≤ num' / den' := by
  rw [Nat.le_div_iff_mul_le hden']
  refine Nat.le_of_mul_le_mul_right (Nat.le_trans ?_ h) hden
  calc num / den * den' * den = num / den * den * den' := Nat.mul_right_comm ..
    _ ≤ num * den' := Nat.mul_le_mul_right _ (Nat.div_mul_le_self _ _)

/-- Rounding to the nearest integer keeps the order, with halves to the even neighbour. -/
theorem roundDiv_mono : roundDiv num den ≤ roundDiv num' den' := by
  rcases Nat.lt_or_eq_of_le (div_le_div_of_mul_le hden hden' h) with hlt | heq
  · calc roundDiv num den ≤ num / den + 1 := roundDiv_le _ _
      _ ≤ num' / den' := hlt
      _ ≤ roundDiv num' den' := le_roundDiv _ _
  · -- Between the same two neighbours, what is left over decides.
    have hrest : num % den * den' ≤ num' % den' * den := by
      have hnum := Nat.div_add_mod num den
      have hnum' := Nat.div_add_mod num' den'
      have hwhole : den' * (num' / den') * den = den * (num / den) * den' := by rw [← heq]; ac_rfl
      rw [← hnum, ← hnum', Nat.add_mul, Nat.add_mul, hwhole] at h
      exact Nat.le_of_add_le_add_left h
    have htwice : den' * (2 * (num % den)) ≤ 2 * (num' % den') * den := by
      calc den' * (2 * (num % den)) = 2 * (num % den * den') := by ac_rfl
        _ ≤ 2 * (num' % den' * den) := Nat.mul_le_mul_left 2 hrest
        _ = 2 * (num' % den') * den := (Nat.mul_assoc ..).symm
    have hhalf : den ≤ 2 * (num % den) → den' ≤ 2 * (num' % den') := fun hle =>
      Nat.le_of_mul_le_mul_right (Nat.le_trans (Nat.mul_le_mul_left den' hle) htwice) hden
    have habove : den < 2 * (num % den) → den' < 2 * (num' % den') := fun hlt =>
      Nat.lt_of_mul_lt_mul_right (Nat.lt_of_lt_of_le (Nat.mul_lt_mul_of_pos_left hlt hden') htwice)
    simp only [roundDiv, heq]
    repeat' split
    all_goals omega

end

/-- The power of two at which the grid of a quotient begins is not above the quotient, unless the grid is the finest. -/
theorem two_pow_le_div {num den : Nat} (h : 0 < excess (num / den)) : 2 ^ (52 + excess (num / den)) ≤ num / den := by
  have hlog : 52 + excess (num / den) = (num / den).log2 := by unfold excess at h ⊢; omega
  have hne : num / den ≠ 0 := by
    intro hzero
    rw [hzero] at h
    exact absurd h (by decide)
  rw [hlog]
  exact Nat.log2_self_le hne

/-- What is rounded on a grid is not below the power of two at which the grid begins. -/
theorem two_pow_le_roundUnits {num den : Nat} (h : 0 < excess (num / den)) :
    2 ^ (52 + excess (num / den)) ≤ roundUnits num den := by
  have hstep : 2 ^ 52 ≤ num / (den * 2 ^ excess (num / den)) := by
    rw [← Nat.div_div_eq_div_mul, Nat.le_div_iff_mul_le (Nat.two_pow_pos _), ← Nat.pow_add]
    exact two_pow_le_div h
  rw [Nat.pow_add]
  exact Nat.mul_le_mul_right _ (Nat.le_trans hstep (le_roundDiv _ _))

/-- **Rounding keeps the order.** -/
theorem roundUnits_mono {num den num' den' : Nat} (hden : 0 < den) (hden' : 0 < den')
    (h : num * den' ≤ num' * den) : roundUnits num den ≤ roundUnits num' den' := by
  rcases Nat.lt_or_eq_of_le (excess_mono (div_le_div_of_mul_le hden hden' h)) with hlt | heq
  · calc roundUnits num den ≤ 2 ^ (excess (num / den) + 53) := roundUnits_lt _ _
      _ ≤ 2 ^ (52 + excess (num' / den')) := Nat.pow_le_pow_right (by decide) (by omega)
      _ ≤ roundUnits num' den' := two_pow_le_roundUnits (Nat.zero_lt_of_lt hlt)
  · have hstep := Nat.two_pow_pos (excess (num' / den'))
    unfold roundUnits
    simp only [heq]
    refine Nat.mul_le_mul_right _ (roundDiv_mono (Nat.mul_pos hden hstep) (Nat.mul_pos hden' hstep) ?_)
    rw [← Nat.mul_assoc, ← Nat.mul_assoc]
    exact Nat.mul_le_mul_right _ h

end Calculator
