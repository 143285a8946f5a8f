/-
The shortest decimal of a number: of all decimals that read back as the number, one with the fewest places, and of
those the nearest to the number.

With `p` places it is enough to try the two neighbours of the number on the grid of `10 ^ (-p)`: if any decimal with
`p` places reads back, then one of them does. With `unitPlaces` places the lower neighbour is the number itself, so the
search over the number of places ends. It is meant for numbers that are not integers.

- `readsBack_shortest`: what is found reads back.
-/
import Calculator.Binary64.Rounding

namespace Calculator

/-- whether the decimal `digits / 10 ^ places` reads back as the magnitude `units` -/
def readsBack (units digits places : Nat) : Bool := roundUnits (digits * Binary64.unit) (10 ^ places) == units

/-- the digits of the greatest decimal with this many places that is not above a magnitude -/
def lowerNeighbour (units places : Nat) : Nat := units * 10 ^ places / Binary64.unit

/-- of the two decimals with this many places around a magnitude, the nearest one that reads back -/
def neighbour? (units places : Nat) : Option Nat :=
  if readsBack units (lowerNeighbour units places) places then
    if readsBack units (lowerNeighbour units places + 1) places then
      some (roundDiv (units * 10 ^ places) Binary64.unit)
    else some (lowerNeighbour units places)
  else if readsBack units (lowerNeighbour units places + 1) places then some (lowerNeighbour units places + 1)
  else none

/-- a number without sign in decimal: `digits / 10 ^ places` -/
structure Decimal where
  digits : Nat
  places : Nat
  deriving DecidableEq

/-- the first decimal that reads back, trying `places` and up to `more` further places -/
def shortestFrom (units places : Nat) : Nat → Decimal
  | 0 => ⟨lowerNeighbour units places, places⟩
  | more + 1 => ((neighbour? units places).map (⟨·, places⟩)).getD (shortestFrom units (places + 1) more)

/-- the shortest decimal that reads back as a magnitude, with at least one place -/
def shortest (units : Nat) : Decimal := shortestFrom units 1 (unitPlaces - 1)

theorem readsBack_of_neighbour? {units places digits : Nat} (h : neighbour? units places = some digits) :
    readsBack units digits places := by
  unfold neighbour? at h
  split at h
  · rename_i hl
    split at h
    · rename_i hu
      rw [← Option.some.inj h]
      rcases roundDiv_eq_or (units * 10 ^ places) Binary64.unit with hr | hr
      · rw [hr]; exact hl
      · rw [hr]; exact hu
    · rw [← Option.some.inj h]; exact hl
  · split at h
    · rename_i hu
      rw [← Option.some.inj h]; exact hu
    · exact absurd h (Option.some_ne_none _).symm

theorem ten_pow_eq (places : Nat) : 10 ^ places = 5 ^ places * 2 ^ places := by rw [← Nat.mul_pow]

/-- With as many places as the unit has, every magnitude is a decimal. -/
theorem readsBack_last {units : Nat} (h : Representable units) :
    readsBack units (lowerNeighbour units unitPlaces) unitPlaces := by
  have hdvd : Binary64.unit ∣ units * 10 ^ unitPlaces :=
    Nat.dvd_mul_left_of_dvd (ten_pow_eq unitPlaces ▸ Nat.dvd_mul_left _ _) _
  simp only [readsBack, lowerNeighbour, beq_iff_eq]
  rw [Nat.div_mul_cancel hdvd]
  exact roundUnits_of_representable (Nat.pow_pos (by decide)) h

theorem readsBack_shortestFrom {units : Nat} (h : Representable units) (places more : Nat)
    (hlast : places + more = unitPlaces) :
    readsBack units (shortestFrom units places more).digits (shortestFrom units places more).places := by
  induction more generalizing places with
  | zero => obtain rfl : places = unitPlaces := hlast; exact readsBack_last h
  | succ more ih =>
    cases hd : neighbour? units places with
    | none =>
      simp only [shortestFrom, hd, Option.map_none, Option.getD_none]
      exact ih (places + 1) (by omega)
    | some digits =>
      simp only [shortestFrom, hd, Option.map_some, Option.getD_some]
      exact readsBack_of_neighbour? hd

/-- The shortest decimal of a magnitude reads back. -/
theorem readsBack_shortest {units : Nat} (h : Representable units) :
    readsBack units (shortest units).digits (shortest units).places :=
  readsBack_shortestFrom h 1 (unitPlaces - 1) (by rw [unitPlaces_eq])

end Calculator
