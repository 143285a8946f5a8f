/-
The arithmetic of the operators `+ - * / %`.

Each operation is exact on units and rounds once. Division by zero gives an infinity of the product of the signs, or
NaN for zero by zero. The remainder is that of division truncated toward zero, has the sign of the dividend, and needs
no rounding: `representable_mod`.
-/
import Calculator.Binary64.Rounding

namespace Calculator

/-- The remainder of two magnitudes is a magnitude: it lies on the finer of their grids. -/
theorem representable_mod {u v : Nat} (hu : Representable u) (hv : Representable v) : Representable (u % v) := by
  by_cases hlt : u < v
  · rwa [Nat.mod_eq_of_lt hlt]
  by_cases hv0 : v = 0
  · subst hv0; simpa using hu
  have hmod : u % v < v := Nat.mod_lt _ (by omega)
  have hdvd : 2 ^ excess v ∣ u := Nat.dvd_trans (Nat.pow_dvd_pow 2 (excess_mono (by omega))) hu.2
  refine representable_of_dvd (Nat.lt_trans hmod hv.1) (e := excess v) ?_ ((Nat.dvd_mod_iff hv.2).2 hdvd)
  refine Nat.lt_of_lt_of_le (Nat.lt_trans hmod Nat.lt_log2_self) (Nat.pow_le_pow_right (by decide) ?_)
  unfold excess; omega

namespace Binary64

/-- The sum; opposite numbers and zeros of opposite signs have the sum `+0`. -/
def add : Binary64 → Binary64 → Binary64
  | nan, _ | _, nan => nan
  | infinite s, infinite t => if s = t then .infinite s else nan
  | infinite s, finite .. => .infinite s
  | finite .., infinite t => .infinite t
  | finite s u _, finite t v _ =>
    let total := signedUnits s u + signedUnits t v
    roundedUnits (if total = 0 then s && t else total < 0) total.natAbs 1

def sub (a b : Binary64) : Binary64 := add a (neg b)

/-- The product; an infinity times zero is NaN. -/
def mul : Binary64 → Binary64 → Binary64
  | nan, _ | _, nan => nan
  | infinite s, infinite t => .infinite (s != t)
  | infinite s, finite t v _ => if v = 0 then nan else .infinite (s != t)
  | finite s u _, infinite t => if u = 0 then nan else .infinite (s != t)
  | finite s u _, finite t v _ => roundedUnits (s != t) (u * v) unit

/-- The quotient; dividing by zero gives an infinity, and NaN for zero by zero. -/
def div : Binary64 → Binary64 → Binary64
  | nan, _ | _, nan => nan
  | infinite _, infinite _ => nan
  | infinite s, finite t .. => .infinite (s != t)
  | finite s .., infinite t => .finite (s != t) 0 representable_zero
  | finite s u _, finite t v _ =>
    if v = 0 then if u = 0 then nan else .infinite (s != t)
    else ofRatio (s != t) u v

/-- The remainder of truncated division, with the sign of the dividend; NaN by zero and of an infinity. -/
def remainder : Binary64 → Binary64 → Binary64
  | finite s u hu, finite _ v hv => if v = 0 then nan else .finite s (u % v) (representable_mod hu hv)
  | finite s u hu, infinite _ => .finite s u hu
  | _, _ => nan

instance : Add Binary64 := ⟨add⟩
instance : Sub Binary64 := ⟨sub⟩
instance : Mul Binary64 := ⟨mul⟩
instance : Div Binary64 := ⟨div⟩

end Binary64

end Calculator
