/-
The greatest common divisor of numbers is that of their counts of units.

No remainder of two magnitudes is rounded, so a step of Euclid's algorithm on numbers that are not below zero is a step
of it on their counts, and the whole algorithm is that on naturals, at any magnitude. A zero may have either sign, which
is never that of a number above zero.

- `Measures.remainder`, `Measures.euclid`, `Measures.gcd`: a step, the algorithm, and two numbers;
- `Measures.foldl_gcd`: any list of numbers;
- `gcdOf_congr`: only which counts there are matters, not how often and in which order;
- `gcd_call`: a call of the function on numbers that are not below zero.
-/
import Calculator.Proofs.Expr.Calls

namespace Calculator

/-! ## Naturals -/

/-- the greatest common divisor of naturals; that of none is zero -/
def gcdOf (ns : List Nat) : Nat := ns.foldr Nat.gcd 0

theorem dvd_gcdOf_iff {ns : List Nat} {d : Nat} : d ∣ gcdOf ns ↔ ∀ n ∈ ns, d ∣ n := by
  induction ns with
  | nil => simp [gcdOf]
  | cons n ns ih =>
    rw [List.forall_mem_cons, ← ih]
    exact Nat.dvd_gcd_iff

/-- Neither the order of naturals nor their repetition matters. -/
theorem gcdOf_congr {ms ns : List Nat} (h : ∀ n, n ∈ ms ↔ n ∈ ns) : gcdOf ms = gcdOf ns :=
  Nat.dvd_antisymm (dvd_gcdOf_iff.2 fun n hn => dvd_gcdOf_iff.1 (Nat.dvd_refl _) n ((h n).2 hn))
    (dvd_gcdOf_iff.2 fun n hn => dvd_gcdOf_iff.1 (Nat.dvd_refl _) n ((h n).1 hn))

theorem gcdOf_cons (n : Nat) (ns : List Nat) : gcdOf (n :: ns) = Nat.gcd n (gcdOf ns) := rfl

theorem gcdOf_map_mul (ns : List Nat) (k : Nat) : gcdOf (ns.map (· * k)) = gcdOf ns * k := by
  induction ns with
  | nil => simp [gcdOf]
  | cons n ns ih => rw [List.map_cons, gcdOf_cons, gcdOf_cons, ih, Nat.gcd_mul_right]

namespace Binary64

/-! ## Counts of units -/

/-- A number that is not below zero is so many units; a zero may have either sign. -/
def Measures (x : Binary64) (n : Nat) : Prop :=
  ∃ negative h, x = .finite negative n h ∧ (negative = true → n = 0)

section

variable {a b : Binary64} {m n : Nat}

/-- A remainder is not rounded. -/
theorem Measures.remainder (ha : a.Measures m) (hb : b.Measures n) (hn : n ≠ 0) :
    (remainder a b).Measures (m % n) := by
  obtain ⟨s, hm, rfl, hs⟩ := ha
  obtain ⟨t, hn', rfl, -⟩ := hb
  refine ⟨s, representable_mod hm hn', ?_, fun hneg => ?_⟩
  · rw [Binary64.remainder, if_neg hn]
  · rw [hs hneg, Nat.zero_mod]

theorem Measures.isPositive_iff (hb : b.Measures n) : b.isPositive ↔ n ≠ 0 := by
  obtain ⟨t, h, rfl, ht⟩ := hb
  cases t with
  | false => simp [isPositive]
  | true => simp [isPositive, ht rfl]

/-- **Euclid's algorithm is that on naturals.** -/
theorem Measures.euclid (ha : a.Measures m) (hb : b.Measures n) : (euclid a b).Measures (Nat.gcd n m) := by
  induction n, m using Nat.gcd.induction generalizing a b with
  | H0 m =>
    rw [Binary64.euclid, dif_neg (mt hb.isPositive_iff.1 (by simp)), Nat.gcd_zero_left]
    exact ha
  | H1 n m hn ih =>
    rw [Binary64.euclid, dif_pos (hb.isPositive_iff.2 (Nat.ne_of_gt hn)), Nat.gcd_rec]
    exact ih hb (ha.remainder hb (Nat.ne_of_gt hn))

/-- The shortcut for zero gives what the algorithm would. -/
theorem Measures.gcd (ha : a.Measures m) (hb : b.Measures n) : (gcd a b).Measures (Nat.gcd m n) := by
  unfold Binary64.gcd
  split
  · rename_i hzero
    obtain ⟨s, h, rfl, -⟩ := ha
    obtain rfl : m = 0 := by simpa [isZero] using hzero
    rwa [Nat.gcd_zero_left]
  · rw [Nat.gcd_comm]
    exact ha.euclid hb

/-- A list of numbers is folded as the list of their counts. -/
theorem Measures.foldl_gcd {xs : List Binary64} {ns : List Nat} (h : List.Forall₂ Measures xs ns) (ha : a.Measures m) :
    (xs.foldl Binary64.gcd a).Measures (gcdOf (m :: ns)) := by
  induction h generalizing a m with
  | nil => simpa [gcdOf] using ha
  | cons hx hxs ih =>
    have hrest := ih (ha.gcd hx)
    rwa [gcdOf_cons, Nat.gcd_assoc, ← gcdOf_cons, ← gcdOf_cons] at hrest

end

/-! ## Numbers that are not below zero -/

/-- how many units a finite number is away from zero -/
def units : Binary64 → Nat
  | finite _ units _ => units
  | _ => 0

theorem measures_iff {x : Binary64} {n : Nat} :
    x.Measures n ↔ x.isFinite ∧ x.lt zero = false ∧ x.units = n := by
  constructor
  · rintro ⟨s, h, rfl, hs⟩
    refine ⟨rfl, ?_, rfl⟩
    rw [← Bool.not_eq_true, lt_zero_iff]
    exact fun hbelow => hbelow.2 (hs hbelow.1)
  · rintro ⟨hfinite, hzero, rfl⟩
    obtain ⟨s, u, h, rfl⟩ := exists_finite_of_isFinite hfinite
    refine ⟨s, h, rfl, fun hs => ?_⟩
    rw [← Bool.not_eq_true, lt_zero_iff] at hzero
    exact Classical.byContradiction fun hu => hzero ⟨hs, hu⟩

theorem measures_units {x : Binary64} (h : x.isFinite ∧ x.lt zero = false) : x.Measures x.units :=
  measures_iff.2 ⟨h.1, h.2, rfl⟩

/-- Numbers of as many units are equal. -/
theorem Measures.ieeeEq {a b : Binary64} {n : Nat} (ha : a.Measures n) (hb : b.Measures n) : a.ieeeEq b := by
  obtain ⟨s, h, rfl, hs⟩ := ha
  obtain ⟨t, h', rfl, ht⟩ := hb
  cases s <;> cases t <;> simp_all [Binary64.ieeeEq, signedUnits]

/-- A number that is not below zero is an integer if it is a whole number of ones. -/
theorem Measures.integer?_eq_some_iff {x : Binary64} {m n : Nat} (h : x.Measures m) :
    x.integer? = some (n : Int) ↔ m = n * unit := by
  obtain ⟨s, hm, rfl, hs⟩ := h
  have hsigned : signedUnits s (m / unit) = (m / unit : Nat) := by
    cases s with
    | false => rfl
    | true => simp [signedUnits, hs rfl]
  rw [integer?, hsigned]
  constructor
  · intro hn
    split at hn
    · rename_i hdvd
      obtain rfl : m / unit = n := Int.ofNat_inj.1 (Option.some.inj hn)
      exact (Nat.div_mul_cancel (Nat.dvd_of_mod_eq_zero hdvd)).symm
    · cases hn
  · rintro rfl
    rw [if_pos (Nat.mul_mod_left _ _), Nat.mul_div_cancel _ unit_pos]

theorem forall₂_measures {xs : List Binary64} (h : ∀ x ∈ xs, x.isFinite ∧ x.lt zero = false) :
    List.Forall₂ Measures xs (xs.map units) := by
  induction xs with
  | nil => exact .nil
  | cons x xs ih =>
    obtain ⟨hx, hxs⟩ := List.forall_mem_cons.1 h
    exact .cons (measures_units hx) (ih hxs)

/-- Integers that are not below zero have as many units as they have ones, times the units of one. -/
theorem map_units_of_integers {xs : List Binary64} (h : ∀ x ∈ xs, x.isFinite ∧ x.lt zero = false) {ns : List Nat}
    (hns : List.Forall₂ (fun (x : Binary64) (n : Nat) => x.integer? = some (n : Int)) xs ns) :
    xs.map units = ns.map (· * unit) := by
  induction hns with
  | nil => rfl
  | cons hx hxs ih =>
    obtain ⟨hfirst, hothers⟩ := List.forall_mem_cons.1 h
    rw [List.map_cons, List.map_cons, ih hothers, (measures_units hfirst).integer?_eq_some_iff.1 hx]

end Binary64

/-! ## Calls -/

open Binary64

section

variable {env : Environment} {name : String} (hentry : env.functions.lookup name = some .gcd)

include hentry

/-- A call of the function on numbers that are not below zero has their greatest common divisor as its value. -/
theorem hasResult_gcd {xs : List Binary64} (hne : xs ≠ []) (hxs : ∀ x ∈ xs, x.isFinite ∧ x.lt zero = false)
    {arguments : List Expr} (harguments : List.Forall₂ (HasResult env) arguments xs) :
    ∃ g, HasResult env (.call name arguments) g ∧ g.Measures (gcdOf (xs.map units)) := by
  obtain ⟨x, others, rfl⟩ := List.exists_cons_of_ne_nil hne
  obtain ⟨hx, hothers⟩ := List.forall_mem_cons.1 hxs
  have hcallee : env.callee name = .ok (.builtin .gcd) := by rw [Environment.callee, hentry]
  have harity : (Callee.builtin .gcd).arity.accepts arguments.length := by
    rw [harguments.length_eq]
    simp [Callee.arity, Arity.accepts]
  refine ⟨others.foldl Binary64.gcd x, ?_, Measures.foldl_gcd (forall₂_measures hothers) (measures_units hx)⟩
  rw [HasResult, eval_of_values hcallee harity harguments]
  rfl

/-- **The greatest common divisor of numbers is exact.** A call of the function on numbers that are not below zero has a
value, which is as many units as the greatest common divisor of their counts of units. So that of integers is that of
the naturals that they are, at any magnitude, and neither order nor repetition of the arguments matters. -/
theorem gcd_call {xs : List Binary64} (hne : xs ≠ []) (hxs : ∀ x ∈ xs, x.isFinite ∧ x.lt zero = false)
    {arguments : List Expr} (harguments : List.Forall₂ (HasResult env) arguments xs) :
    ∃ g, HasResult env (.call name arguments) g ∧ g.isFinite ∧ g.lt zero = false ∧
      g.units = gcdOf (xs.map units) ∧
      (∀ ns : List Nat, List.Forall₂ (fun (x : Binary64) (n : Nat) => x.integer? = some (n : Int)) xs ns →
        g.integer? = some (gcdOf ns : Int)) ∧
      ∀ (ys : List Binary64) (arguments' : List Expr), (∀ y ∈ ys, y.isFinite ∧ y.lt zero = false) →
        (∀ n, n ∈ ys.map units ↔ n ∈ xs.map units) → List.Forall₂ (HasResult env) arguments' ys →
        ∃ g', HasResult env (.call name arguments') g' ∧ g'.ieeeEq g := by
  obtain ⟨g, hresult, hmeasures⟩ := hasResult_gcd hentry hne hxs harguments
  obtain ⟨hfinite, hzero, hunits⟩ := measures_iff.1 hmeasures
  refine ⟨g, hresult, hfinite, hzero, hunits, fun ns hns => ?_, fun ys arguments' hys hsame harguments' => ?_⟩
  · rw [hmeasures.integer?_eq_some_iff, map_units_of_integers hxs hns, gcdOf_map_mul]
  · have hne' : ys ≠ [] := by
      rintro rfl
      obtain ⟨x, others, rfl⟩ := List.exists_cons_of_ne_nil hne
      exact absurd ((hsame x.units).2 List.mem_cons_self) List.not_mem_nil
    obtain ⟨g', hresult', hmeasures'⟩ := hasResult_gcd hentry hne' hys harguments'
    rw [gcdOf_congr hsame] at hmeasures'
    exact ⟨g', hresult', hmeasures'.ieeeEq hmeasures⟩

end

/-- twelve units, a negative zero, and eighteen units -/
def smallNumbers : List Binary64 :=
  [.finite false 12 (by decide +kernel), .finite true 0 representable_zero, .finite false 18 (by decide +kernel)]

/-- Far below one, the greatest common divisor is as exact as that of integers. -/
theorem gcd_call_smallNumbers :
    smallNumbers ≠ [] ∧ (∀ x ∈ smallNumbers, x.isFinite ∧ x.lt zero = false) ∧
      ({} : Environment).functions.lookup "gcd" = some .gcd ∧
      List.Forall₂ (HasResult {}) (smallNumbers.map .number) smallNumbers ∧
      ∃ g, HasResult {} (.call "gcd" (smallNumbers.map .number)) g ∧ g.units = 6 := by
  have hne : smallNumbers ≠ [] := List.cons_ne_nil _ _
  have hnumbers : ∀ x ∈ smallNumbers, x.isFinite ∧ x.lt zero = false := by decide +kernel
  have hentry : ({} : Environment).functions.lookup "gcd" = some .gcd := by decide
  have harguments : List.Forall₂ (HasResult {}) (smallNumbers.map .number) smallNumbers :=
    .cons rfl (.cons rfl (.cons rfl .nil))
  obtain ⟨g, hresult, -, -, hunits, -⟩ := gcd_call hentry hne hnumbers harguments
  exact ⟨hne, hnumbers, hentry, harguments, g, hresult, hunits⟩

end Calculator
