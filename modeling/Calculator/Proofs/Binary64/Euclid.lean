/-
Euclid's loop on numbers, turn by turn.

A turn makes the divisor the dividend, and the remainder the divisor. Turns are counted on the operands alone, so that
nothing here rests on the loop being known to end. A remainder is never infinite: an infinite divisor can only be met
before the first turn, and leaves its dividend, by which the next remainder is NaN. From then on divisors are finite,
and two turns halve them.

- `shrinks_remainder`: what a turn with a finite divisor leaves;
- `exists_endsAfter_finite`: with a finite divisor, the loop is over after two turns for each of its bits;
- `euclid_ends`: it is over after 4196 turns for any two numbers, and what a turn leaves.
-/
import Calculator.Binary64.Gcd
import Mathlib.Logic.Function.Iterate

namespace Calculator.Binary64

/-! ## One turn -/

/-- one turn of the loop, on the dividend and the divisor -/
def turn (operands : Binary64 × Binary64) : Binary64 × Binary64 := (operands.2, remainder operands.1 operands.2)

/-- what a turn with this divisor leaves as the next one -/
inductive Shrinks (divisor : Binary64) : Binary64 → Prop where
  | nan : Shrinks divisor .nan
  /-- A negative number, or a zero. -/
  | notPositive {x : Binary64} (hx : x.isFinite) (hsign : x.isPositive = false) : Shrinks divisor x
  | smaller {x : Binary64} (hx : x.isFinite) (hsign : x.isPositive) (hdivisor : divisor.isFinite)
      (hlt : x.lt divisor) : Shrinks divisor x

section

variable (a : Binary64) {b : Binary64}

/-- A remainder is never infinite. -/
theorem remainder_ne_infinite (b : Binary64) (s : Bool) : remainder a b ≠ .infinite s := by
  cases a with
  | finite t u hu =>
    cases b with
    | finite t' v hv =>
      rw [remainder]
      split <;> exact Binary64.noConfusion
    | _ => exact Binary64.noConfusion
  | _ => cases b <;> exact Binary64.noConfusion

/-- So whatever divisor a turn leaves, if it is positive it is finite. -/
theorem isFinite_of_isPositive_remainder (h : (remainder a b).isPositive) : (remainder a b).isFinite := by
  have hne := remainder_ne_infinite a b
  cases hr : remainder a b with
  | nan => rw [hr] at h; cases h
  | infinite s => exact absurd hr (hne s)
  | finite => rfl

theorem exists_finite_of_isPositive (hfinite : b.isFinite) (h : b.isPositive) :
    ∃ v hv, b = .finite false v hv ∧ v ≠ 0 := by
  obtain ⟨t, v, hv, rfl⟩ := exists_finite_of_isFinite hfinite
  cases t with
  | false => exact ⟨v, hv, rfl, by simpa [isPositive] using h⟩
  | true => cases h

/-- **A turn** with a finite divisor leaves NaN, or a number that is not positive, or a smaller finite divisor. -/
theorem shrinks_remainder (hfinite : b.isFinite) (h : b.isPositive) : Shrinks b (remainder a b) := by
  obtain ⟨v, hv, rfl, hv0⟩ := exists_finite_of_isPositive hfinite h
  cases a with
  | nan => exact .nan
  | infinite s => exact .nan
  | finite s u hu =>
    rw [remainder, if_neg hv0]
    cases s with
    | true => exact .notPositive rfl rfl
    | false =>
      by_cases hrest : u % v = 0
      · exact .notPositive rfl (by simp [isPositive, hrest])
      · have hlt : u % v < v := Nat.mod_lt u (Nat.pos_of_ne_zero hv0)
        exact .smaller rfl (by simp [isPositive, hrest]) rfl ((finite_lt_finite _ hv).2 hlt)

end

/-! ## The end -/

/-- The loop is over after so many turns: before each of them the divisor is positive, and behind the last it is not. -/
structure EndsAfter (a b : Binary64) (turns : Nat) : Prop where
  positive : ∀ k < turns, (turn^[k] (a, b)).2.isPositive
  isOver : (turn^[turns] (a, b)).2.isPositive = false

section

variable {a b : Binary64} {turns : Nat}

theorem EndsAfter.zero (h : b.isPositive = false) : EndsAfter a b 0 := ⟨fun k hk => absurd hk (Nat.not_lt_zero k), h⟩

theorem EndsAfter.succ (h : b.isPositive) (hrest : EndsAfter b (remainder a b) turns) : EndsAfter a b (turns + 1) := by
  refine ⟨fun k hk => ?_, hrest.isOver⟩
  cases k with
  | zero => exact h
  | succ k => exact hrest.positive k (Nat.lt_of_succ_lt_succ hk)

/-- The first turn behind which the divisor is not positive is the last one. -/
theorem EndsAfter.eq {turns' : Nat} (h : EndsAfter a b turns) (h' : EndsAfter a b turns') : turns = turns' := by
  rcases Nat.lt_trichotomy turns turns' with hlt | heq | hlt
  · exact absurd (h'.positive turns hlt) (by simp [h.isOver])
  · exact heq
  · exact absurd (h.positive turns' hlt) (by simp [h'.isOver])

/-- The dividend behind the last turn is what the loop gives. -/
theorem EndsAfter.euclid_eq (h : EndsAfter a b turns) : euclid a b = (turn^[turns] (a, b)).1 := by
  induction turns generalizing a b with
  | zero =>
    have hover : b.isPositive = false := h.isOver
    rw [euclid, dif_neg (by simp [hover])]
    rfl
  | succ turns ih =>
    have hfirst : b.isPositive := h.positive 0 (Nat.succ_pos turns)
    rw [euclid, dif_pos hfirst, Function.iterate_succ_apply]
    exact ih ⟨fun k hk => h.positive (k + 1) (Nat.succ_lt_succ hk), h.isOver⟩

/-- Behind the first turn, whatever is positive is finite. -/
theorem isFinite_turn_succ (k : Nat) (h : (turn^[k + 1] (a, b)).2.isPositive) : (turn^[k + 1] (a, b)).2.isFinite := by
  rw [Function.iterate_succ_apply'] at h ⊢
  exact isFinite_of_isPositive_remainder _ h

end

/-- Two turns halve a divisor. -/
theorem two_mul_mod_lt {v r : Nat} (hr : r ≠ 0) (hlt : r < v) : 2 * (v % r) < v := by
  have hrest : v % r < r := Nat.mod_lt v (Nat.pos_of_ne_zero hr)
  have hle : r + v % r ≤ v := by
    calc r + v % r ≤ r * (v / r) + v % r :=
          Nat.add_le_add_right (Nat.le_mul_of_pos_right r (Nat.div_pos (Nat.le_of_lt hlt) (Nat.pos_of_ne_zero hr))) _
      _ = v := Nat.div_add_mod v r
  omega

theorem log2_succ_le {v w : Nat} (hv : 2 ≤ v) (h : 2 * w < v) : w.log2 + 1 ≤ v.log2 := by
  rw [Nat.le_log2 (by omega)]
  by_cases hw : w = 0
  · subst hw
    exact hv
  · have hpow : 2 ^ w.log2 ≤ w := Nat.log2_self_le hw
    rw [Nat.pow_succ]
    omega

/-- **With a finite divisor the loop ends**, after at most two turns for each of its bits. -/
theorem exists_endsAfter_finite (a : Binary64) {v : Nat} (hv : Representable v) :
    ∃ turns ≤ 2 * (v.log2 + 1), EndsAfter a (.finite false v hv) turns := by
  induction v using Nat.strongRecOn generalizing a with
  | ind v ih =>
    by_cases hv0 : v = 0
    · exact ⟨0, Nat.zero_le _, .zero (by simp [isPositive, hv0])⟩
    have hpositive : (finite false v hv).isPositive := by simpa [isPositive] using hv0
    cases hnext : (remainder a (.finite false v hv)).isPositive with
    | false => exact ⟨1, by omega, .succ hpositive (.zero hnext)⟩
    | true =>
      -- The divisor that is left is positive, so that its own remainder is less than half of `v`.
      obtain ⟨r, hr, heq, hr0⟩ := exists_finite_of_isPositive (isFinite_of_isPositive_remainder a hnext) hnext
      have hshrinks := shrinks_remainder a rfl hpositive
      rw [heq] at hshrinks hnext
      cases hshrinks with
      | notPositive _ hsign => rw [hsign] at hnext; cases hnext
      | smaller _ _ _ hlt =>
        have hbelow := (finite_lt_finite hr hv).1 hlt
        have hhalf := two_mul_mod_lt hr0 hbelow
        obtain ⟨turns, hturns, hends⟩ := ih (v % r) (by omega) (.finite false r hr) (representable_mod hv hr)
        have hlog := log2_succ_le (by omega) hhalf
        refine ⟨turns + 2, by omega, .succ hpositive ?_⟩
        rw [heq]
        refine .succ hnext ?_
        rwa [remainder, if_neg hr0]

theorem log2_lt_of_representable {v : Nat} (h : Representable v) : v.log2 < unitPlaces + 1024 := by
  by_cases hv : v = 0
  · rw [hv, Nat.log2_zero]
    omega
  · exact (Nat.log2_lt hv).2 h.1

/-- An infinite divisor leaves its dividend, if that is positive, and the next turn leaves NaN. -/
theorem exists_endsAfter_infinite (a : Binary64) :
    ∃ turns ≤ 2, EndsAfter a (.infinite false) turns ∧
      (Shrinks (.infinite false) (remainder a (.infinite false)) ∨ remainder a (.infinite false) = a ∧ turns = 2) := by
  cases hnext : (remainder a (.infinite false)).isPositive with
  | false =>
    refine ⟨1, by decide, .succ rfl (.zero hnext), .inl ?_⟩
    cases a with
    | finite s u hu => exact .notPositive rfl hnext
    | _ => exact .nan
  | true =>
    cases a with
    | finite s u hu => exact ⟨2, Nat.le_refl 2, .succ rfl (.succ hnext (.zero rfl)), .inr ⟨rfl, rfl⟩⟩
    | _ => cases hnext

/-- Whatever the divisor, the loop ends, and only an infinite one may leave a divisor that is not smaller. -/
theorem exists_endsAfter (a b : Binary64) :
    ∃ turns ≤ 2 * (unitPlaces + 1024), EndsAfter a b turns ∧
      (0 < turns → Shrinks b (remainder a b) ∨ b = .infinite false ∧ remainder a b = a ∧ turns = 2) := by
  cases hpositive : b.isPositive with
  | false => exact ⟨0, Nat.zero_le _, .zero hpositive, fun h => absurd h (Nat.lt_irrefl 0)⟩
  | true =>
    cases b with
    | nan => cases hpositive
    | finite =>
      obtain ⟨v, hv, heq, -⟩ := exists_finite_of_isPositive rfl hpositive
      rw [heq] at hpositive ⊢
      obtain ⟨turns, hturns, hends⟩ := exists_endsAfter_finite a hv
      have hbits := Nat.mul_le_mul_left 2 (log2_lt_of_representable hv)
      exact ⟨turns, Nat.le_trans hturns hbits, hends, fun _ => .inl (shrinks_remainder a rfl hpositive)⟩
    | infinite t =>
      obtain rfl : t = false := by simpa [isPositive] using hpositive
      obtain ⟨turns, hturns, hends, hfirst⟩ := exists_endsAfter_infinite a
      have hbits : 2 ≤ 2 * (unitPlaces + 1024) := Nat.le_mul_of_pos_right 2 (by omega)
      exact ⟨turns, Nat.le_trans hturns hbits, hends, fun _ => hfirst.imp_right fun h => ⟨rfl, h⟩⟩

/-- **The loop ends for any two numbers**, after at most two turns for each bit of the format, and with it the greatest
common divisor is found. The second turn, and every turn behind it, leaves NaN, or a number that is not positive, or a
finite number that is positive and less than the divisor of the turn, which is finite. So does the first, unless its
divisor is infinite: then it leaves the dividend, and the loop is over with the next turn. -/
theorem euclid_ends (a b : Binary64) :
    ∃ turns ≤ 2 * (unitPlaces + 1024), EndsAfter a b turns ∧
      gcd a b = (if a.isZero then b else (turn^[turns] (a, b)).1) ∧
      (∀ k, 1 ≤ k → k < turns → Shrinks (turn^[k] (a, b)).2 (turn^[k + 1] (a, b)).2) ∧
      (0 < turns → Shrinks b (remainder a b) ∨ b = .infinite false ∧ remainder a b = a ∧ turns = 2) := by
  obtain ⟨turns, hturns, hends, hfirst⟩ := exists_endsAfter a b
  refine ⟨turns, hturns, hends, by rw [gcd, hends.euclid_eq], fun k hk hlt => ?_, hfirst⟩
  obtain ⟨k, rfl⟩ := Nat.exists_eq_add_of_le' hk
  have hpositive := hends.positive (k + 1) hlt
  rw [Function.iterate_succ_apply' turn (k + 1)]
  exact shrinks_remainder _ (isFinite_turn_succ k hpositive) hpositive

/-- Of twelve and eighteen, the loop is over after three turns; of five and an infinite divisor after two, the second of
which leaves NaN. -/
theorem euclid_ends_twelve_eighteen :
    EndsAfter (ofInt 12) (ofInt 18) 3 ∧ gcd (ofInt 12) (ofInt 18) = ofInt 6 ∧ Shrinks (ofInt 12) (ofInt 6) ∧
      Shrinks (ofInt 6) zero ∧ EndsAfter (ofInt 5) (.infinite false) 2 ∧
      gcd (ofInt 5) (.infinite false) = ofInt 5 ∧ Shrinks (ofInt 5) .nan := by
  obtain ⟨turns, -, hends, hgcd, hshrinks, -⟩ := euclid_ends (ofInt 12) (ofInt 18)
  obtain rfl : turns = 3 := hends.eq ⟨by decide +kernel, by decide +kernel⟩
  obtain ⟨turns, -, hends', hgcd', hshrinks', -⟩ := euclid_ends (ofInt 5) (.infinite false)
  obtain rfl : turns = 2 := hends'.eq ⟨by decide +kernel, by decide +kernel⟩
  have hdivisors : (turn^[1] (ofInt 12, ofInt 18)).2 = ofInt 12 ∧ (turn^[2] (ofInt 12, ofInt 18)).2 = ofInt 6 ∧
      (turn^[3] (ofInt 12, ofInt 18)).2 = zero := by decide +kernel
  have hinfinite : (turn^[1] (ofInt 5, .infinite false)).2 = ofInt 5 ∧
      (turn^[2] (ofInt 5, .infinite false)).2 = .nan := by decide +kernel
  have hfirst := hshrinks 1 (by decide) (by decide)
  have hlast := hshrinks 2 (by decide) (by decide)
  have hnan := hshrinks' 1 (by decide) (by decide)
  rw [hdivisors.1, hdivisors.2.1] at hfirst
  rw [hdivisors.2.1, hdivisors.2.2] at hlast
  rw [hinfinite.1, hinfinite.2] at hnan
  exact ⟨hends, hgcd.trans (by decide +kernel), hfirst, hlast, hends', hgcd'.trans (by decide +kernel), hnan⟩

end Calculator.Binary64
