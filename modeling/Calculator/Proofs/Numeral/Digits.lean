/-
Digits of naturals and of fractions, and what they denote.

- `ofDigits_toDigits`: the digits of a natural number denote it, in every base up to 16;
- `ofDigits_fractionDigits`: the digits after the point denote the fraction they are taken from, and none is lost with
  the zeros at the end;
- `isDigit_of_mem_toDigits`, `isDigit_of_mem_fractionDigits`: they are digits of their radix.
-/
import Calculator.Numeral.Display

namespace Calculator

/-! ## Single digits -/

theorem digitValue_digitChar {d : Nat} (h : d < 16) : digitValue d.digitChar = d := by
  have hall : ∀ d : Fin 16, digitValue (d : Nat).digitChar = d := by decide
  exact hall ⟨d, h⟩

namespace Radix

theorem one_lt_base (radix : Radix) : 1 < radix.base := by cases radix <;> decide

theorem base_pos (radix : Radix) : 0 < radix.base := Nat.lt_trans Nat.zero_lt_one radix.one_lt_base

theorem base_le (radix : Radix) : radix.base ≤ 16 := by cases radix <;> decide

theorem isDigit_digitChar (radix : Radix) {d : Nat} (h : d < radix.base) : radix.isDigit d.digitChar := by
  have hall : ∀ radix : Radix, ∀ d : Fin radix.base, radix.isDigit (d : Nat).digitChar := by
    rintro (_ | _ | _) <;> decide
  exact hall radix ⟨d, h⟩

end Radix

/-! ## Naturals -/

theorem ofDigits_singleton (base : Nat) (c : Char) : ofDigits base [c] = digitValue c := by simp [ofDigits]

theorem ofDigits_cons (base : Nat) (c : Char) (cs : Text) :
    ofDigits base (c :: cs) = digitValue c * base ^ cs.length + ofDigits base cs := by
  rw [← List.singleton_append, ofDigits_append, ofDigits_singleton]

/-- The digits of a natural number denote it. -/
theorem ofDigits_toDigits {base : Nat} (hb : 1 < base) (hle : base ≤ 16) (n : Nat) :
    ofDigits base (Nat.toDigits base n) = n := by
  induction n using Nat.base_induction base hb with
  | single d hd =>
    rw [Nat.toDigits_of_lt_base hd, ofDigits_singleton, digitValue_digitChar (by omega)]
  | digit n d hd hn ih =>
    rw [← Nat.toDigits_append_toDigits hb hn hd, ofDigits_append, ih, Nat.toDigits_of_lt_base hd, ofDigits_singleton,
      digitValue_digitChar (by omega), List.length_singleton, Nat.pow_one, Nat.mul_comm]

/-- The digits of a natural number have what every digit of the base has. -/
theorem forall_mem_toDigits {base : Nat} (hb : 1 < base) {p : Char → Prop} (hp : ∀ d < base, p d.digitChar) (n : Nat) :
    ∀ c ∈ Nat.toDigits base n, p c := by
  induction n using Nat.base_induction base hb with
  | single d hd =>
    intro c hc
    rw [Nat.toDigits_of_lt_base hd, List.mem_singleton] at hc
    rw [hc]; exact hp d hd
  | digit n d hd hn ih =>
    intro c hc
    rw [← Nat.toDigits_append_toDigits hb hn hd, List.mem_append, Nat.toDigits_of_lt_base hd, List.mem_singleton] at hc
    rcases hc with hc | rfl
    · exact ih c hc
    · exact hp d hd

theorem isDigit_of_mem_toDigits (radix : Radix) (n : Nat) : ∀ c ∈ Nat.toDigits radix.base n, radix.isDigit c :=
  forall_mem_toDigits radix.one_lt_base (fun _ hd => radix.isDigit_digitChar hd) n

/-! ## Zeros in front -/

theorem ofDigits_padLeft (base width : Nat) (digits : Text) :
    ofDigits base (padLeft width digits) = ofDigits base digits := by
  have hzeros : ∀ n, ofDigits base (List.replicate n '0') = 0 := by
    intro n
    induction n with
    | zero => rfl
    | succ n ih => rw [List.replicate_succ, ofDigits_cons, ih]; simp [digitValue]
  rw [padLeft, ofDigits_append, hzeros, Nat.zero_mul, Nat.zero_add]

theorem length_padLeft {width : Nat} {digits : Text} (h : digits.length ≤ width) :
    (padLeft width digits).length = width := by
  simp [padLeft]; omega

theorem isDigit_of_mem_padLeft {radix : Radix} {width : Nat} {digits : Text} (h : ∀ c ∈ digits, radix.isDigit c) :
    ∀ c ∈ padLeft width digits, radix.isDigit c := by
  intro c hc
  rcases List.mem_append.1 hc with hc | hc
  · rw [List.eq_of_mem_replicate hc]; cases radix <;> decide
  · exact h c hc

/-! ## Fractions -/

theorem fractionDigits_zero (base places : Nat) : fractionDigits base places 0 = [] := by cases places <;> rfl

theorem fractionDigits_succ (base places : Nat) {n : Nat} (hn : n ≠ 0) :
    fractionDigits base (places + 1) n =
      (n / base ^ places).digitChar :: fractionDigits base places (n % base ^ places) := by
  cases n with
  | zero => exact absurd rfl hn
  | succ n => rfl

/-- the first digit of a fraction below one -/
theorem div_lt_base {base places n : Nat} (h : n < base ^ (places + 1)) : n / base ^ places < base := by
  refine Nat.div_lt_of_lt_mul ?_
  rwa [← Nat.pow_succ]

/-- The digits of a fraction denote it: with `places` places it is `n / base ^ places`. -/
theorem ofDigits_fractionDigits {base : Nat} (hb : 0 < base) (hle : base ≤ 16) {places n : Nat}
    (h : n < base ^ places) :
    ofDigits base (fractionDigits base places n) * base ^ places =
      n * base ^ (fractionDigits base places n).length := by
  induction places generalizing n with
  | zero =>
    obtain rfl : n = 0 := by simpa using h
    simp [fractionDigits, ofDigits]
  | succ places ih =>
    by_cases hn : n = 0
    · subst hn; simp [fractionDigits_zero, ofDigits]
    have hrest := ih (Nat.mod_lt n (Nat.pow_pos hb))
    rw [fractionDigits_succ base places hn, ofDigits_cons,
      digitValue_digitChar (Nat.lt_of_lt_of_le (div_lt_base h) hle), List.length_cons]
    generalize fractionDigits base places (n % base ^ places) = ds at hrest
    calc (n / base ^ places * base ^ ds.length + ofDigits base ds) * base ^ (places + 1)
        = n / base ^ places * base ^ places * base ^ (ds.length + 1) +
            ofDigits base ds * base ^ places * base := by grind
      _ = (base ^ places * (n / base ^ places) + n % base ^ places) * base ^ (ds.length + 1) := by rw [hrest]; grind
      _ = n * base ^ (ds.length + 1) := by rw [Nat.div_add_mod]

/-- So have the digits of a fraction. -/
theorem forall_mem_fractionDigits {base : Nat} (hb : 0 < base) {p : Char → Prop} (hp : ∀ d < base, p d.digitChar)
    {places n : Nat} (h : n < base ^ places) : ∀ c ∈ fractionDigits base places n, p c := by
  induction places generalizing n with
  | zero => simp [fractionDigits]
  | succ places ih =>
    by_cases hn : n = 0
    · subst hn; simp [fractionDigits_zero]
    intro c hc
    rw [fractionDigits_succ _ _ hn, List.mem_cons] at hc
    rcases hc with rfl | hc
    · exact hp _ (div_lt_base h)
    · exact ih (Nat.mod_lt n (Nat.pow_pos hb)) c hc

theorem isDigit_of_mem_fractionDigits (radix : Radix) {places n : Nat} (h : n < radix.base ^ places) :
    ∀ c ∈ fractionDigits radix.base places n, radix.isDigit c :=
  forall_mem_fractionDigits radix.base_pos (fun _ hd => radix.isDigit_digitChar hd) h

theorem fractionDigits_ne_nil {base places n : Nat} (h : n < base ^ places) (hn : n ≠ 0) :
    fractionDigits base places n ≠ [] := by
  cases places with
  | zero => exact absurd (by simpa using h) hn
  | succ places =>
    rw [fractionDigits_succ base places hn]
    exact List.cons_ne_nil _ _

end Calculator
