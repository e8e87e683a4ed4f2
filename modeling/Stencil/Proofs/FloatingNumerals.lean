import Stencil.Proofs.WrittenNumerals
import Stencil.Render.Literal

namespace Stencil

/-!
# Numerals of floating-point literals

As `double` and `float` every number is rendered with a point.  Integers are
formatted without one, and so are doubles with a single digit before an exponent.

The digits of a double are laid out in four ways.  For each there is a numeral
that is written so and has the right value (`Decimal.exists_shows_positional`,
`Decimal.exists_shows_scientific`); a style that puts the point in writes the same
numeral with the point.
-/

namespace Decimal

/-! ## The layout of doubles -/

/-- A numeral is written as a text, is another text with a point put in, and has a value. -/
structure Written.Shows (w : Written) (plain pointed : Text) (value : ℚ) : Prop where
  text_eq : w.text = plain
  pointed_text_eq : w.pointed.text = pointed
  value_eq : w.value = value

/-- A numeral that has a point already. -/
theorem Written.shows_of_fraction {w : Written} {digits : Digits}
    (hfraction : w.fraction? = some digits) {t : Text} {v : ℚ} (htext : w.text = t)
    (hvalue : w.value = v) : w.Shows t t v :=
  ⟨htext, by rw [pointed_of_fraction hfraction, htext], hvalue⟩

/-- The value of a numeral whose digits are those of a number, with zeros at the end. -/
theorem value_eq_of_digits {w : Written} {n : Numeral} {k : Nat}
    (hdigits : Text.numeralValue (w.whole.val ++ w.fraction) = n.digits * 10 ^ k)
    (hexponent : w.exponent?.elim 0 (·.value) - w.fraction.length + k = n.exponent) :
    w.value = signed w.negative n.value := by
  rw [Written.value, hdigits, scaled_eq, hexponent, Numeral.value]

section Layout

variable {digits : Text} {n : Numeral} (hdigits : Text.IsNumeral digits)
  (hnumber : Text.numeralValue digits = n.digits) (negative : Bool)

include hdigits hnumber

/-- All digits, and zeros behind them, in front of the point. -/
theorem exists_shows_whole {k : Nat} (hexponent : n.exponent = k) :
    ∃ w : Written,
      let t := sign negative ++ (digits ++ List.replicate k '0' ++ ".0")
      w.Shows t t (signed negative n.value) := by
  refine ⟨⟨negative, ⟨_, hdigits.append_zeros k⟩, some Digits.zero, none⟩,
    Written.shows_of_fraction rfl ?_ (@value_eq_of_digits _ n (k + 1) ?_ ?_)⟩
  · simp [Written.text, Written.fractionText, Written.exponentText, Digits.zero]
  · have hzeros : digits ++ List.replicate k '0' ++ "0" = digits ++ List.replicate (k + 1) '0' := by
      rw [List.replicate_succ', List.append_assoc]
      rfl
    show Text.numeralValue (digits ++ List.replicate k '0' ++ "0") = _
    rw [hzeros, Text.numeralValue_append_zeros, hnumber]
  · show (0 : Int) - 1 + (k + 1 : Nat) = n.exponent
    omega

/-- The point between the digits. -/
theorem exists_shows_split {places : Nat} (hexponent : n.exponent = -places) (hpos : 0 < places)
    (hplaces : places < digits.length) :
    ∃ w : Written,
      let t := sign negative ++
        (digits.take (digits.length - places) ++ "." ++ digits.drop (digits.length - places))
      w.Shows t t (signed negative n.value) := by
  have hfront : digits.take (digits.length - places) ≠ [] := by
    rw [← List.length_pos_iff, List.length_take]
    omega
  have hback : digits.drop (digits.length - places) ≠ [] := by
    rw [← List.length_pos_iff, List.length_drop]
    omega
  refine ⟨⟨negative, ⟨_, hdigits.of_subset hfront (List.take_subset _ _)⟩,
      some ⟨_, hdigits.of_subset hback (List.drop_subset _ _)⟩, none⟩,
    Written.shows_of_fraction rfl ?_ (@value_eq_of_digits _ n 0 ?_ ?_)⟩
  · simp [Written.text, Written.fractionText, Written.exponentText]
  · show Text.numeralValue (digits.take _ ++ digits.drop _) = _
    rw [List.take_append_drop, hnumber, Nat.pow_zero, Nat.mul_one]
  · show (0 : Int) - (digits.drop (digits.length - places)).length + (0 : Nat) = n.exponent
    rw [List.length_drop]
    omega

/-- All digits, and zeros before them, behind the point. -/
theorem exists_shows_fraction {places : Nat} (hexponent : n.exponent = -places)
    (hplaces : digits.length ≤ places) :
    ∃ w : Written,
      let t := sign negative ++ ("0." ++ List.replicate (places - digits.length) '0' ++ digits)
      w.Shows t t (signed negative n.value) := by
  refine ⟨⟨negative, Digits.zero, some ⟨_, hdigits.zeros_append (places - digits.length)⟩, none⟩,
    Written.shows_of_fraction rfl ?_ (@value_eq_of_digits _ n 0 ?_ ?_)⟩
  · simp [Written.text, Written.fractionText, Written.exponentText, Digits.zero]
  · show Text.numeralValue (List.replicate 1 '0' ++ (List.replicate _ '0' ++ digits)) = _
    rw [Text.numeralValue_zeros_append, Text.numeralValue_zeros_append, hnumber, Nat.pow_zero,
      Nat.mul_one]
  · show (0 : Int) - (List.replicate (places - digits.length) '0' ++ digits).length + (0 : Nat) =
      n.exponent
    rw [List.length_append, List.length_replicate]
    omega

end Layout

theorem exists_shows_positional (negative : Bool) (n : Numeral) :
    ∃ w : Written,
      let t := sign negative ++ positional n
      w.Shows t t (signed negative n.value) := by
  have hdigits := Text.isNumeral_ofNat n.digits
  have hnumber := Text.numeralValue_ofNat n.digits
  unfold positional
  by_cases hexponent : 0 ≤ n.exponent
  · rw [if_pos hexponent]
    exact exists_shows_whole hdigits hnumber negative (Int.toNat_of_nonneg hexponent).symm
  rw [if_neg hexponent]
  have hplaces : n.exponent = -((-n.exponent).toNat : Int) := by omega
  by_cases hsplit : (-n.exponent).toNat < (Text.ofNat n.digits).length
  · rw [if_pos hsplit]
    exact exists_shows_split hdigits hnumber negative hplaces (by omega) hsplit
  · rw [if_neg hsplit]
    exact exists_shows_fraction hdigits hnumber negative hplaces (Nat.not_lt.1 hsplit)

theorem exists_shows_integer (negative : Bool) (n : Nat) :
    ∃ w : Written,
      w.Shows (sign negative ++ Text.ofNat n) (sign negative ++ Text.ofNat n ++ ".0")
        (signed negative n) := by
  refine ⟨⟨negative, ⟨_, Text.isNumeral_ofNat n⟩, none, none⟩, ?_, ?_, ?_⟩
  · simp [Written.text, Written.fractionText, Written.exponentText]
  · simp [Written.text, Written.pointed, Written.fractionText, Written.exponentText, Digits.zero]
  · have hvalue : signed negative (n : ℚ) = signed negative (Numeral.value ⟨n, 0⟩) := by
      rw [Numeral.value, zpow_zero, mul_one]
    rw [hvalue]
    refine @value_eq_of_digits _ ⟨n, 0⟩ 0 ?_ rfl
    show Text.numeralValue (Text.ofNat n ++ []) = n * 10 ^ 0
    rw [List.append_nil, Text.numeralValue_ofNat, Nat.pow_zero, Nat.mul_one]

/-- A style with or without a zero between a single digit and its exponent. -/
def Style.pointing (style : Style) (alwaysPoint : Bool) : Style :=
  { style with alwaysPoint := alwaysPoint }

theorem exists_power (style : Style) (e : Int) :
    ∃ power : Power, style.exponentText e = 'e' :: power.text ∧ power.value = e := by
  have hsigned := Text.isSigned_ofInt e
  unfold Style.exponentText
  by_cases hplus : style.plusSign ∧ 0 ≤ e
  · rw [if_pos hplus]
    obtain ⟨k, rfl⟩ := Int.eq_ofNat_of_zero_le hplus.2
    have hplain := Text.IsSigned.plus (Text.isNumeral_ofNat k)
    rw [Text.numeralValue_ofNat] at hplain
    exact ⟨⟨_, _, hplain⟩, rfl, rfl⟩
  · rw [if_neg hplus]
    exact ⟨⟨_, _, hsigned⟩, rfl, rfl⟩

/-- With an exponent, the point stands after the first digit, or is put in if that is the only
one. -/
theorem exists_shows_scientific (style : Style) (negative : Bool) (n : Numeral) :
    ∃ w : Written,
      w.Shows (sign negative ++ (style.pointing false).scientific n)
        (sign negative ++ (style.pointing true).scientific n) (signed negative n.value) := by
  have hdigits := Text.isNumeral_ofNat n.digits
  have hnumber := Text.numeralValue_ofNat n.digits
  obtain ⟨power, hpower, hvalue⟩ :=
    exists_power style (n.exponent + (Text.ofNat n.digits).length - 1)
  have htext : ∀ alwaysPoint, (style.pointing alwaysPoint).exponentText
      (n.exponent + (Text.ofNat n.digits).length - 1) = 'e' :: power.text := fun _ => hpower
  simp only [Style.scientific, htext]
  obtain ⟨first, rest, hcut⟩ := List.exists_cons_of_ne_nil hdigits.ne_nil
  rw [hcut] at hdigits hnumber hvalue ⊢
  have hfirst : Text.IsNumeral [first] :=
    hdigits.of_subset (List.cons_ne_nil _ _) (by simp)
  cases rest with
  | nil =>
      refine ⟨⟨negative, ⟨_, hfirst⟩, none, some power⟩, ?_, ?_, @value_eq_of_digits _ n 0 ?_ ?_⟩
      · simp [Written.text, Written.fractionText, Written.exponentText, Style.pointing]
      · simp [Written.text, Written.pointed, Written.fractionText, Written.exponentText,
          Digits.zero, Style.pointing]
      · show Text.numeralValue [first] = _
        rw [hnumber, Nat.pow_zero, Nat.mul_one]
      · show power.value - (0 : Nat) + (0 : Nat) = n.exponent
        rw [hvalue]
        simp
  | cons second more =>
      have hmore : Text.IsNumeral (second :: more) :=
        hdigits.of_subset (List.cons_ne_nil _ _) (by simp)
      refine ⟨⟨negative, ⟨_, hfirst⟩, some ⟨_, hmore⟩, some power⟩,
        Written.shows_of_fraction rfl ?_ (@value_eq_of_digits _ n 0 ?_ ?_)⟩
      · simp [Written.text, Written.fractionText, Written.exponentText]
      · show Text.numeralValue (first :: second :: more) = _
        rw [hnumber, Nat.pow_zero, Nat.mul_one]
      · show power.value - (second :: more).length + (0 : Nat) = n.exponent
        rw [hvalue]
        simp only [List.length_cons]
        omega

/-- The value that a style writes for a double. -/
def Style.shownValue (style : Style) (d : Double) : ℚ :=
  signed d.negative (shortest style.tie d.significand d.exponent).value

/-- A style that puts the point in writes the numeral that the other one writes, with the point. -/
theorem exists_shows_write (style : Style) (d : Double) :
    ∃ w : Written,
      w.Shows ((style.pointing false).write d) ((style.pointing true).write d)
        (style.shownValue d) := by
  have hwrite : ∀ alwaysPoint, (style.pointing alwaysPoint).write d =
      sign d.negative ++
        (style.pointing alwaysPoint).unsigned (shortest style.tie d.significand d.exponent) := by
    intro alwaysPoint
    rw [Style.write, sign]
    cases d.negative <;> rfl
  rw [hwrite, hwrite, Style.shownValue]
  generalize shortest style.tie d.significand d.exponent = n
  let first := n.exponent + (Text.ofNat n.digits).length - 1
  have hunsigned : ∀ alwaysPoint, (style.pointing alwaysPoint).unsigned n =
      if style.least ≤ first ∧ first ≤ style.greatest then positional n
      else (style.pointing alwaysPoint).scientific n := fun _ => rfl
  rw [hunsigned, hunsigned]
  by_cases hrange : style.least ≤ first ∧ first ≤ style.greatest
  · rw [if_pos hrange, if_pos hrange]
    exact exists_shows_positional d.negative n
  · rw [if_neg hrange, if_neg hrange]
    exact exists_shows_scientific style d.negative n

end Decimal

/-! ## Numbers as floating-point literals -/

namespace Literal.Number

/-- A number as it is formatted, before it is given a point. -/
def formatted : Json.Number → Text
  | .integer n => Text.ofInt n
  | .double d => (numeralStyle.pointing false).write d

/-- The value of a formatted number; that of a double is the shortest decimal that reads as it. -/
def value : Json.Number → ℚ
  | .integer n => n
  | .double d => numeralStyle.shownValue d

theorem exists_shows (number : Json.Number) :
    ∃ w : Decimal.Written, w.Shows (formatted number) (withPoint number) (value number) := by
  cases number with
  | integer n =>
      cases n with
      | ofNat n => exact Decimal.exists_shows_integer false n
      | negSucc n =>
          have hvalue :
              value (.integer (.negSucc n)) = Decimal.signed true ((n + 1 : Nat) : ℚ) := by
            rw [value, Int.cast_negSucc]
            rfl
          rw [hvalue]
          exact Decimal.exists_shows_integer true (n + 1)
  | double d => exact Decimal.exists_shows_write numeralStyle d

end Literal.Number

end Stencil
