/-
Double-precision numbers as exact values.

A finite number is a sign and a magnitude, and a magnitude is a whole number of `2 ^ (-1074)`, the least positive
number of the format. The grid is coarser for larger magnitudes: a magnitude keeps 53 significant bits, so its count
of units is a multiple of `2 ^ excess`. Everything that is exact for real numbers is exact on these counts.

- `Representable`: which counts of units are magnitudes of the format;
- `Binary64`: NaN, the infinities and the finite numbers; the proof of representability is part of a finite number;
- `ofBits`, `toBits`: the interchange encoding;
- `Binary64.ieeeEq`, `Binary64.lt`: comparison, in which a NaN differs from everything and zeros are equal.
-/

namespace Calculator

-- Powers are those of the core library, also where a library that has powers of its own is imported.
attribute [instance(1100), default_instance 10001] instPowNat

/-- how many trailing bits a magnitude of `units` has beyond its 53 significant ones -/
def excess (units : Nat) : Nat := units.log2 - 52

/-- A unit is `2 ^ (-unitPlaces)`. Sealed, so that no proof runs into a power of this size. -/
@[irreducible] def unitPlaces : Nat := 1074

theorem unitPlaces_eq : unitPlaces = 1074 := by unfold unitPlaces; rfl

/-- how many units make `2 ^ 1024`, the first magnitude out of range -/
def unitLimit : Nat := 2 ^ (unitPlaces + 1024)

theorem unitLimit_pos : 0 < unitLimit := Nat.two_pow_pos _

/-- A count of units is a magnitude of the format: below `2 ^ 1024` as a number, with 53 significant bits. -/
def Representable (units : Nat) : Prop := units < unitLimit ∧ 2 ^ excess units ∣ units

instance (units : Nat) : Decidable (Representable units) := inferInstanceAs (Decidable (_ ∧ _))

theorem representable_zero : Representable 0 := ⟨unitLimit_pos, Nat.dvd_zero _⟩

/-- the grid of magnitudes below `2 ^ (e + 53)` is no coarser than `2 ^ e` -/
theorem excess_le {u e : Nat} (h : u < 2 ^ (e + 53)) : excess u ≤ e := by
  by_cases hu : u = 0
  · subst hu; simp [excess]
  · have := (Nat.log2_lt hu).2 h
    unfold excess; omega

theorem representable_of_dvd {u e : Nat} (hu : u < unitLimit) (he : u < 2 ^ (e + 53)) (hd : 2 ^ e ∣ u) :
    Representable u :=
  ⟨hu, Nat.dvd_trans (Nat.pow_dvd_pow 2 (excess_le he)) hd⟩

theorem excess_mono {u v : Nat} (h : u ≤ v) : excess u ≤ excess v := by
  by_cases hu : u = 0
  · subst hu; simp [excess]
  · have hv : v ≠ 0 := by omega
    have : u.log2 ≤ v.log2 := (Nat.le_log2 hv).2 (Nat.le_trans (Nat.log2_self_le hu) h)
    unfold excess; omega

/-- a double-precision number -/
inductive Binary64 where
  | nan
  | infinite (negative : Bool)
  /-- `± units * 2 ^ (-1074)` -/
  | finite (negative : Bool) (units : Nat) (representable : Representable units)
  deriving DecidableEq

namespace Binary64

/-- the finite number of this sign and magnitude, and an infinity for a magnitude that is out of range -/
def ofUnits (negative : Bool) (units : Nat) : Binary64 :=
  if h : Representable units then .finite negative units h else .infinite negative

theorem ofUnits_of_representable {units : Nat} (negative : Bool) (h : Representable units) :
    ofUnits negative units = .finite negative units h := dif_pos h

/-- how many units make `1` -/
def unit : Nat := 2 ^ unitPlaces

theorem unit_pos : 0 < unit := Nat.two_pow_pos _

def zero : Binary64 := .finite false 0 representable_zero

instance : Inhabited Binary64 := ⟨zero⟩

def isFinite : Binary64 → Bool
  | finite .. => true
  | _ => false

/-- A finite number is a sign and a magnitude. -/
theorem exists_finite_of_isFinite {x : Binary64} (h : x.isFinite) : ∃ s u hu, x = .finite s u hu := by
  cases x with
  | finite s u hu => exact ⟨s, u, hu, rfl⟩
  | nan => exact absurd h Bool.false_ne_true
  | infinite => exact absurd h Bool.false_ne_true

/-- the sign bit, which a NaN is taken not to have -/
def isNegative : Binary64 → Bool
  | nan => false
  | infinite negative => negative
  | finite negative .. => negative

def isZero : Binary64 → Bool
  | finite _ units _ => units == 0
  | _ => false

theorem exists_finite_of_isZero {x : Binary64} (h : x.isZero) : ∃ s, x = .finite s 0 representable_zero := by
  cases x with
  | finite s u hu =>
    obtain rfl : u = 0 := eq_of_beq h
    exact ⟨s, rfl⟩
  | nan => exact absurd h Bool.false_ne_true
  | infinite => exact absurd h Bool.false_ne_true

def neg : Binary64 → Binary64
  | nan => nan
  | infinite negative => infinite !negative
  | finite negative units h => finite (!negative) units h

def abs : Binary64 → Binary64
  | nan => nan
  | infinite _ => infinite false
  | finite _ units h => finite false units h

instance : Neg Binary64 := ⟨neg⟩

/-- the value of a finite number in units, as an integer -/
def signedUnits (negative : Bool) (units : Nat) : Int := if negative then -(units : Int) else units

/-- Numeric equality: zeros of either sign are equal, and a NaN equals nothing. -/
def ieeeEq : Binary64 → Binary64 → Bool
  | infinite s, infinite t => s == t
  | finite s u _, finite t v _ => signedUnits s u == signedUnits t v
  | _, _ => false

/-- Numeric order; a NaN is not below anything, nor above. -/
def lt : Binary64 → Binary64 → Bool
  | nan, _ | _, nan => false
  | infinite s, infinite t => s && !t
  | infinite s, finite .. => s
  | finite .., infinite t => !t
  | finite s u _, finite t v _ => signedUnits s u < signedUnits t v

theorem finite_lt_finite {u v : Nat} (hu : Representable u) (hv : Representable v) :
    (finite false u hu).lt (.finite false v hv) ↔ u < v := by
  rw [lt, decide_eq_true_iff]
  exact Int.ofNat_lt

theorem lt_zero_iff {negative : Bool} {units : Nat} {h : Representable units} :
    (finite negative units h).lt zero ↔ negative = true ∧ units ≠ 0 := by
  cases negative with
  | false => simp [lt, zero, signedUnits]
  | true => simp [lt, zero, signedUnits, Nat.pos_iff_ne_zero]

/-! ## Interchange encoding -/

/-- The number that 64 bits encode: sign, 11 bits of exponent, 52 bits of fraction. -/
def ofBits (bits : UInt64) : Binary64 :=
  let negative := bits >>> 63 == 1
  let exponent := ((bits >>> 52) &&& 0x7ff).toNat
  let fraction := (bits &&& 0xfffffffffffff).toNat
  if exponent == 0x7ff then if fraction == 0 then .infinite negative else .nan
  else if exponent == 0 then ofUnits negative fraction
  else ofUnits negative ((2 ^ 52 + fraction) * 2 ^ (exponent - 1))

/-- Exponent and fraction fields of a magnitude, as one number. The leading one of a normal magnitude is bit 52 of the
quotient, so it adds one to the exponent field. -/
def magnitudeBits (units : Nat) : Nat := excess units * 2 ^ 52 + units / 2 ^ excess units

/-- The 64 bits of a number; of the encodings of NaN, the quiet one without a payload. -/
def toBits : Binary64 → UInt64
  | nan => 0x7ff8000000000000
  | infinite negative => UInt64.ofNat (cond negative (2 ^ 63) 0 + 0x7ff * 2 ^ 52)
  | finite negative units _ => UInt64.ofNat (cond negative (2 ^ 63) 0 + magnitudeBits units)

end Binary64

end Calculator
