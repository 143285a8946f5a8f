/-
Decimals with an exponent are not read back as one token.

Literals have no exponent. The decimal text of a number that is no integer and lies below `0.0001` in magnitude has one
(`ExponentForm`): its digits, the first before the point, then `e`, a minus and the power of ten. They denote the number
exactly as those of any other text do, but they are read as a literal, the name `e`, a subtraction and a literal.

That the text has an exponent is a matter of the number and not of its digits: a decimal from `0.0001` on reads back as
a number from there on, since rounding keeps the order.

- `lt_places_shortest`: below `0.0001`, the shortest decimal has too many zeros behind the point;
- `exists_exponentForm`: so its text has an exponent;
- `ExponentForm.tokens_eq`: the tokens of such a text;
- `Binary64.tokens_text`: which finite numbers are read back from their decimal texts.
-/
import Calculator.Proofs.Binary64.Rounding
import Calculator.Proofs.Numeral.Decimal
import Calculator.Proofs.Token.Tiling

namespace Calculator

open Binary64

/-! ## Shortest decimals -/

/-- The number nearest to `0.0001` is not below it. -/
theorem unit_le_roundUnits : unit ≤ 10 ^ 4 * roundUnits unit (10 ^ 4) := by decide +kernel

/-- A number with more than `k` digits is at least `10 ^ k`. -/
theorem ten_pow_le_of_lt_length {n k : Nat} (hn : 0 < n) (h : k < (Nat.toDigits 10 n).length) : 10 ^ k ≤ n := by
  rcases Nat.eq_zero_or_pos k with rfl | hk
  · exact hn
  · exact Nat.not_lt.1 fun hlt => Nat.not_le.2 h ((Nat.length_toDigits_le_iff (by decide) hk).2 hlt)

/-- Below `0.0001`, there are too many zeros behind the point for a text without an exponent. -/
theorem lt_places_shortest {units : Nat} (h : Representable units) (hfraction : units % unit ≠ 0)
    (hsmall : 10 ^ 4 * units < unit) :
    (Nat.toDigits 10 (shortest units).digits).length + layout.zeros < (shortest units).places := by
  have hread := readsBack_shortest h
  generalize shortest units = d at hread ⊢
  have hround := readsBack_iff.1 hread
  have hplaces : 0 < 10 ^ d.places := Nat.pow_pos (by decide)
  refine Nat.lt_of_not_le fun hle => ?_
  -- The decimal is not below `0.0001`, so neither is what it reads back as.
  have hpos : 0 < d.digits := by
    refine Nat.pos_of_ne_zero fun hzero => hfraction ?_
    have hunits : units = 0 := by
      have hexact := roundUnits_of_representable hplaces representable_zero
      rw [hzero, Nat.zero_mul] at hround
      rw [Nat.zero_mul, hround] at hexact
      exact hexact
    rw [hunits, Nat.zero_mod]
  have hdigits : 10 ^ d.places ≤ d.digits * 10 ^ 4 := by
    have hlength : 0 < (Nat.toDigits 10 d.digits).length := Nat.length_toDigits_pos
    calc 10 ^ d.places ≤ 10 ^ ((Nat.toDigits 10 d.digits).length - 1 + 4) :=
          Nat.pow_le_pow_right (by decide) (by simp only [layout] at hle; omega)
      _ = 10 ^ ((Nat.toDigits 10 d.digits).length - 1) * 10 ^ 4 := Nat.pow_add ..
      _ ≤ d.digits * 10 ^ 4 := Nat.mul_le_mul_right _ (ten_pow_le_of_lt_length hpos (by omega))
  have hmono : roundUnits unit (10 ^ 4) ≤ roundUnits (d.digits * unit) (10 ^ d.places) := by
    refine roundUnits_mono (by decide) hplaces ?_
    calc unit * 10 ^ d.places ≤ unit * (d.digits * 10 ^ 4) := Nat.mul_le_mul_left _ hdigits
      _ = d.digits * unit * 10 ^ 4 := by ac_rfl
  rw [hround] at hmono
  exact Nat.not_le.2 hsmall (Nat.le_trans unit_le_roundUnits (Nat.mul_le_mul_left _ hmono))

/-! ## Texts with an exponent -/

/-- The decimal text of a number has an exponent: its digits, one before the point and the others behind it, and the
digits of the power of ten below one. They denote the number. -/
structure ExponentForm (x : Binary64) where
  first : Char
  others : Text
  exponent : Text
  isDigit_first : Radix.decimal.isDigit first
  isDigit_others : ∀ c ∈ others, Radix.decimal.isDigit c
  isDigit_exponent : ∀ c ∈ exponent, Radix.decimal.isDigit c
  exponent_ne_nil : exponent ≠ []
  text_eq : x.text = (if x.isNegative then ['-'] else []) ++ pointed [first] others ++ 'e' :: '-' :: exponent
  value_eq : ofRatio x.isNegative (ofDigits 10 (first :: others)) (10 ^ (others.length + ofDigits 10 exponent)) = x

theorem Decimal.scientific_eq_pointed {exponentDigits : Nat} {d : Decimal} {first : Char} {others : Text}
    (h : Nat.toDigits 10 d.digits = first :: others) :
    d.scientific exponentDigits =
      pointed [first] others ++ 'e' :: '-' :: padLeft exponentDigits (Nat.toDigits 10 (d.places - others.length)) := by
  rw [scientific, h, pointed]
  cases others <;> rfl

/-- The digits behind the point and the exponent make up the places of a decimal. -/
theorem Decimal.places_scientific {exponentDigits : Nat} {d : Decimal} {others : Text} (h : others.length ≤ d.places) :
    others.length + ofDigits 10 (padLeft exponentDigits (Nat.toDigits 10 (d.places - others.length))) = d.places := by
  rw [ofDigits_padLeft, ofDigits_toDigits (by decide) (by decide)]
  omega

/-- A number that is no integer and below `0.0001` in magnitude has a text with an exponent. -/
theorem exists_exponentForm {x : Binary64} (hx : x.isFinite) (hsmall : ¬ x.Positional) : Nonempty (ExponentForm x) := by
  match x, hx with
  | .finite negative units h, _ =>
    obtain ⟨hfraction, hunits⟩ := not_or.1 hsmall
    have hplaces := lt_places_shortest h hfraction (Nat.not_le.1 hunits)
    have hread := readsBack_shortest h
    have hmagnitude : magnitudeText units = (shortest units).scientific layout.exponentDigits := by
      rw [magnitudeText, if_neg hfraction, Decimal.text, if_neg (Nat.not_le.2 hplaces)]
    have hsign : signText negative units = if negative then ['-'] else [] := by
      have hne : units ≠ 0 := fun hzero => hfraction (by rw [hzero, Nat.zero_mod])
      simp [signText, hne]
    generalize shortest units = d at hplaces hread hmagnitude
    have hisDigit := isDigit_of_mem_toDigits .decimal d.digits
    have hvalue : ofDigits 10 (Nat.toDigits 10 d.digits) = d.digits := ofDigits_toDigits (by decide) (by decide) _
    obtain ⟨first, others, hdigits⟩ := List.exists_cons_of_ne_nil (Nat.toDigits_ne_nil (n := d.digits) (b := 10))
    rw [show Radix.decimal.base = 10 from rfl, hdigits] at hisDigit
    rw [hdigits] at hvalue
    rw [hdigits, List.length_cons] at hplaces
    refine ⟨⟨first, others, padLeft layout.exponentDigits (Nat.toDigits 10 (d.places - others.length)),
      hisDigit _ List.mem_cons_self, fun c hc => hisDigit c (.tail _ hc),
      isDigit_of_mem_padLeft (isDigit_of_mem_toDigits .decimal _), ?_, ?_, ?_⟩⟩
    · exact List.append_ne_nil_of_right_ne_nil _ Nat.toDigits_ne_nil
    · rw [text, hmagnitude, Decimal.scientific_eq_pointed hdigits, hsign, ← List.append_assoc]
      rfl
    · rw [hvalue, Decimal.places_scientific (by omega)]
      exact ofRatio_of_readsBack h hread negative

namespace ExponentForm

variable {x : Binary64} (form : ExponentForm x)

/-- the sign and the digits in front of the exponent -/
def mantissa : Text := (if x.isNegative then ['-'] else []) ++ pointed [form.first] form.others

def mantissaValue : Binary64 :=
  let value := Radix.decimal.value [form.first] form.others
  if x.isNegative then -value else value

def exponentValue : Binary64 := Radix.decimal.value form.exponent []

theorem endsNumeral : Lexer.EndsNumeral .decimal ('e' :: '-' :: form.exponent) := by
  intro c hc
  obtain rfl : 'e' = c := Option.some.inj hc
  decide

theorem reads_mantissa :
    Lexer.Reads false form.mantissa ('e' :: '-' :: form.exponent) (.number form.mantissaValue .decimal) := by
  have hfirst : ∀ c ∈ [form.first], Radix.decimal.isDigit c := by simp [form.isDigit_first]
  unfold mantissa mantissaValue
  split
  · exact Lexer.reads_negative (List.cons_ne_nil _ _) hfirst form.isDigit_others form.endsNumeral
  · exact Lexer.reads_numeral (List.cons_ne_nil _ _) hfirst form.isDigit_others form.endsNumeral false

/-- **A text with an exponent is four tokens.** -/
theorem tokens_eq :
    tokens x.text =
      [⟨.number form.mantissaValue .decimal, ⟨0, form.mantissa.length⟩⟩,
        ⟨.name "e", ⟨form.mantissa.length, form.mantissa.length + 1⟩⟩,
        ⟨.operator .subtract, ⟨form.mantissa.length + 1, form.mantissa.length + 2⟩⟩,
        ⟨.number form.exponentValue .decimal, ⟨form.mantissa.length + 2, x.text.length⟩⟩,
        ⟨.endOfInput, ⟨x.text.length, x.text.length + 1⟩⟩] := by
  have hname : Lexer.Reads true ['e'] ('-' :: form.exponent) (.name "e") := by
    refine Lexer.reads_name ⟨'e', [], rfl, by decide, by simp, by decide⟩ ?_ true
    simp [Lexer.Breaks, show Lexer.isNamePart '-' = false by decide]
  have hminus : Lexer.Reads true ['-'] form.exponent (.operator .subtract) :=
    Lexer.reads_symbol rfl (by simp) (by simp)
  have hexponent : Lexer.Reads false (Lexer.numeralText .decimal form.exponent []) []
      (.number form.exponentValue .decimal) :=
    Lexer.reads_numeral form.exponent_ne_nil form.isDigit_exponent (by simp) (Lexer.breaks_nil.endsNumeral _) false
  have hend (position : Nat) : Lexer.Lexed position false form.exponent
      [⟨.number form.exponentValue .decimal, ⟨position, position + form.exponent.length⟩⟩] := by
    have hlexed := Lexer.Lexed.token hexponent (.nil (position + form.exponent.length) true)
    rwa [List.append_nil] at hlexed
  have htext : x.text = form.mantissa ++ 'e' :: '-' :: form.exponent := form.text_eq
  have hlength : x.text.length = form.mantissa.length + 2 + form.exponent.length := by
    rw [htext]
    simp only [List.length_append, List.length_cons]
    omega
  have hlexed := Lexer.Lexed.token form.reads_mantissa
    (.token hname (.token hminus (hend (0 + form.mantissa.length + 1 + 1))))
  have htokens := hlexed.tokensFrom_eq
  rw [← htext] at htokens
  rw [tokens, htokens, hlength]
  simp [Lexer.endToken, Nat.add_assoc]

end ExponentForm

/-! ## Which texts are read back -/

namespace Binary64

/-- **Which decimal texts are read back.** A finite number that is an integer or not below `0.0001` in magnitude is one
token, over the whole text and with the number as its value. Every other has a text with an exponent, whose digits
denote the number, but which is four tokens. -/
theorem tokens_text {x : Binary64} (hx : x.isFinite) :
    (x.Positional → tokens x.text =
      [⟨.number x.positiveZero .decimal, ⟨0, x.text.length⟩⟩, ⟨.endOfInput, ⟨x.text.length, x.text.length + 1⟩⟩]) ∧
    (¬ x.Positional → ∃ form : ExponentForm x, tokens x.text =
      [⟨.number form.mantissaValue .decimal, ⟨0, form.mantissa.length⟩⟩,
        ⟨.name "e", ⟨form.mantissa.length, form.mantissa.length + 1⟩⟩,
        ⟨.operator .subtract, ⟨form.mantissa.length + 1, form.mantissa.length + 2⟩⟩,
        ⟨.number form.exponentValue .decimal, ⟨form.mantissa.length + 2, x.text.length⟩⟩,
        ⟨.endOfInput, ⟨x.text.length, x.text.length + 1⟩⟩]) := by
  constructor
  · intro hpositional
    exact Lexer.tokens_of_reads (hpositional.reads_text (by simp) Lexer.breaks_nil)
  · intro hsmall
    obtain ⟨form⟩ := exists_exponentForm hx hsmall
    exact ⟨form, form.tokens_eq⟩

/-- The number nearest to `0.1`. Sealed, so that only the kernel computes it. -/
@[irreducible] def tenth : Binary64 := ofRatio false 1 10

/-- the number nearest to `0.00001` -/
@[irreducible] def hundredThousandth : Binary64 := ofRatio false 1 (10 ^ 5)

/-- `0.1` is read back, and the text of the smaller number is four tokens. -/
theorem tokens_text_tenth :
    tenth.isFinite ∧ tenth.Positional ∧
      tokens tenth.text = [⟨.number tenth .decimal, ⟨0, 3⟩⟩, ⟨.endOfInput, ⟨3, 4⟩⟩] ∧
      hundredThousandth.isFinite ∧ ¬ hundredThousandth.Positional ∧
      ∃ form : ExponentForm hundredThousandth, (tokens hundredThousandth.text).map (·.lexeme) =
        [.number form.mantissaValue .decimal, .name "e", .operator .subtract, .number form.exponentValue .decimal,
          .endOfInput] := by
  have htenth : tenth.isFinite := by decide +kernel
  have hpositional : tenth.Positional := by decide +kernel
  have hread := (tokens_text htenth).1 hpositional
  have htext : tenth.text.length = 3 ∧ tenth.positiveZero = tenth := by decide +kernel
  rw [htext.1, htext.2] at hread
  have hfinite : hundredThousandth.isFinite := by decide +kernel
  have hsmall : ¬ hundredThousandth.Positional := by decide +kernel
  obtain ⟨form, hform⟩ := (tokens_text hfinite).2 hsmall
  have hlexemes := congrArg (List.map (·.lexeme)) hform
  exact ⟨htenth, hpositional, hread, hfinite, hsmall, form, hlexemes⟩

/-- `1e-05` is no literal: it is read as `1`, the name `e` and `05`, with a subtraction between the last two. -/
theorem tokens_hundredThousandth :
    hundredThousandth.isFinite ∧ hundredThousandth.text = "1e-05".toList ∧
      tokens hundredThousandth.text =
        [⟨.number (.ofNat 1) .decimal, ⟨0, 1⟩⟩, ⟨.name "e", ⟨1, 2⟩⟩, ⟨.operator .subtract, ⟨2, 3⟩⟩,
          ⟨.number (.ofNat 5) .decimal, ⟨3, 5⟩⟩, ⟨.endOfInput, ⟨5, 6⟩⟩] ∧
      tokens hundredThousandth.text ≠
        [⟨.number hundredThousandth.positiveZero .decimal, ⟨0, hundredThousandth.text.length⟩⟩,
          ⟨.endOfInput, ⟨hundredThousandth.text.length, hundredThousandth.text.length + 1⟩⟩] := by
  decide +kernel

end Binary64

end Calculator
