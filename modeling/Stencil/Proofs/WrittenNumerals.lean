import Mathlib.Algebra.Field.Rat
import Mathlib.Algebra.GroupWithZero.Basic
import Mathlib.Tactic.Ring
import Stencil.Proofs.IndexTexts
import Stencil.Proofs.Occurrence

namespace Stencil

/-!
# Written numerals

A numeral has digits, possibly a point with further digits, and possibly an
exponent.  Its parts can be read off its text (`Decimal.Written.text_injective`),
so a text has one value.

Some numerals lack a point.  It can be put into the text without a look at its
parts, by `Decimal.insertPoint`, and goes with a zero directly behind the digits of
units (`Decimal.Written.insertPoint_text`).  The value stays the same
(`Decimal.Written.value_pointed`).
-/

namespace Text

/-! ## The digits of numbers -/

theorem numeralValue_append (s t : Text) :
    numeralValue (s ++ t) = numeralValue s * 10 ^ t.length + numeralValue t := by
  rw [numeralValue, List.reverse_append, List.map_append, Nat.ofDigits_append, List.length_map,
    List.length_reverse, ← numeralValue, ← numeralValue, Nat.add_comm, Nat.mul_comm]

theorem numeralValue_zeros (k : Nat) : numeralValue (List.replicate k '0') = 0 := by
  induction k with
  | zero => rfl
  | succ k ih =>
      rw [List.replicate_succ', numeralValue_append, ih, Nat.zero_mul]
      rfl

theorem numeralValue_append_zeros (s : Text) (k : Nat) :
    numeralValue (s ++ List.replicate k '0') = numeralValue s * 10 ^ k := by
  rw [numeralValue_append, numeralValue_zeros, List.length_replicate, Nat.add_zero]

theorem numeralValue_zeros_append (k : Nat) (s : Text) :
    numeralValue (List.replicate k '0' ++ s) = numeralValue s := by
  rw [numeralValue_append, numeralValue_zeros, Nat.zero_mul, Nat.zero_add]

theorem isDigit_of_mem_zeros {k : Nat} : ∀ c ∈ List.replicate k '0', c.isDigit = true := by
  intro c hc
  rw [List.eq_of_mem_replicate hc]
  rfl

theorem IsNumeral.append_zeros {digits : Text} (hdigits : IsNumeral digits) (k : Nat) :
    IsNumeral (digits ++ List.replicate k '0') where
  ne_nil := List.append_ne_nil_of_left_ne_nil hdigits.ne_nil _
  isDigit := List.forall_mem_append.2 ⟨hdigits.isDigit, isDigit_of_mem_zeros⟩

theorem IsNumeral.zeros_append {digits : Text} (hdigits : IsNumeral digits) (k : Nat) :
    IsNumeral (List.replicate k '0' ++ digits) where
  ne_nil := List.append_ne_nil_of_right_ne_nil _ hdigits.ne_nil
  isDigit := List.forall_mem_append.2 ⟨isDigit_of_mem_zeros, hdigits.isDigit⟩

theorem IsNumeral.of_subset {digits part : Text} (hdigits : IsNumeral digits) (hne : part ≠ [])
    (hpart : part ⊆ digits) : IsNumeral part :=
  ⟨hne, fun c hc => hdigits.isDigit c (hpart hc)⟩

/-- The digit of a number below ten. -/
theorem digit_spec : ∀ k < 10,
    (Char.ofNat (48 + k)).isDigit = true ∧ (Char.ofNat (48 + k)).toNat - 48 = k := by
  decide

theorem isNumeral_ofNat (n : Nat) : IsNumeral (ofNat n) := by
  fun_induction ofNat n with
  | case1 n hn => exact ⟨List.cons_ne_nil _ _, List.forall_mem_singleton.2 (digit_spec n hn).1⟩
  | case2 n hn ih =>
      have hlast := (digit_spec (n % 10) (Nat.mod_lt n (by decide))).1
      exact ⟨List.append_ne_nil_of_left_ne_nil ih.ne_nil _,
        List.forall_mem_append.2 ⟨ih.isDigit, List.forall_mem_singleton.2 hlast⟩⟩

theorem numeralValue_ofNat (n : Nat) : numeralValue (ofNat n) = n := by
  have hdigit : ∀ k < 10, numeralValue [Char.ofNat (48 + k)] = k := by
    intro k hk
    rw [numeralValue, List.reverse_singleton, List.map_singleton, (digit_spec k hk).2,
      Nat.ofDigits_singleton]
  fun_induction ofNat n with
  | case1 n hn => exact hdigit n hn
  | case2 n hn ih =>
      rw [numeralValue_append, ih, hdigit _ (Nat.mod_lt n (by decide)), List.length_singleton,
        Nat.pow_one, Nat.mul_comm, Nat.div_add_mod]

theorem isSigned_ofInt (n : Int) : IsSigned (ofInt n) n := by
  cases n with
  | ofNat n =>
      have hsigned := IsSigned.plain (isNumeral_ofNat n)
      rwa [numeralValue_ofNat] at hsigned
  | negSucc n =>
      have hsigned := IsSigned.minus (isNumeral_ofNat (n + 1))
      rwa [numeralValue_ofNat] at hsigned

/-- Digits before something else can be told from it. -/
theorem eq_of_digits_append {digits digits' rest rest' : Text}
    (hdigits : ∀ c ∈ digits, c.isDigit = true) (hdigits' : ∀ c ∈ digits', c.isDigit = true)
    (hrest : ∀ c ∈ rest.head?, c.isDigit = false) (hrest' : ∀ c ∈ rest'.head?, c.isDigit = false)
    (hsame : digits ++ rest = digits' ++ rest') : digits = digits' ∧ rest = rest' := by
  have htake : ∀ {front back : Text}, (∀ c ∈ front, c.isDigit = true) →
      (∀ c ∈ back.head?, c.isDigit = false) → (front ++ back).takeWhile Char.isDigit = front := by
    intro front back hfront hback
    rw [List.takeWhile_append_of_pos hfront]
    cases back with
    | nil => exact List.append_nil front
    | cons c back =>
        rw [List.takeWhile_cons_of_neg (by simp [hback c rfl]), List.append_nil]
  have hfront : digits = digits' := by
    rw [← htake hdigits hrest, hsame, htake hdigits' hrest']
  subst hfront
  exact ⟨rfl, List.append_cancel_left hsame⟩

end Text

namespace Decimal

/-! ## The parts of a numeral -/

/-- A minus sign, or nothing. -/
def sign (negative : Bool) : Text := if negative then ['-'] else []

/-- A number with a sign. -/
def signed (negative : Bool) (magnitude : ℚ) : ℚ := if negative then -magnitude else magnitude

/-- A row of decimal digits, at least one. -/
abbrev Digits : Type := {digits : Text // Text.IsNumeral digits}

/-- The digit zero. -/
def Digits.zero : Digits := ⟨"0", List.cons_ne_nil _ _, List.forall_mem_singleton.2 rfl⟩

/-- An integer with a sign or without one. -/
structure Power where
  text : Text
  value : Int
  isSigned : Text.IsSigned text value

/-- A numeral: digits after an optional minus sign, then possibly a point with digits and possibly
an exponent. -/
structure Written where
  negative : Bool
  whole : Digits
  fraction? : Option Digits
  exponent? : Option Power

/-- The value of a numeral that is a number times a power of ten. -/
def Numeral.value (n : Numeral) : ℚ := n.digits * 10 ^ n.exponent

/-- Zeros at the end of a number count as a power of ten. -/
theorem scaled_eq (a k : Nat) (e : Int) :
    ((a * 10 ^ k : Nat) : ℚ) * 10 ^ e = a * 10 ^ (e + k) := by
  rw [zpow_add₀ (by norm_num), zpow_natCast, Nat.cast_mul, Nat.cast_pow, Nat.cast_ofNat]
  ring

namespace Written

variable {w w' : Written}

/-- The point and the digits behind it. -/
def fractionText (w : Written) : Text := w.fraction?.elim [] fun digits => '.' :: digits.val

/-- The exponent with its letter. -/
def exponentText (w : Written) : Text := w.exponent?.elim [] fun power => 'e' :: power.text

def text (w : Written) : Text :=
  sign w.negative ++ w.whole.val ++ w.fractionText ++ w.exponentText

/-- The digits behind the point. -/
def fraction (w : Written) : Text := w.fraction?.elim [] (·.val)

/-- The number of all digits, times a power of ten that each digit behind the point lowers. -/
def value (w : Written) : ℚ :=
  signed w.negative
    (Text.numeralValue (w.whole.val ++ w.fraction) *
      10 ^ (w.exponent?.elim 0 (·.value) - w.fraction.length))

/-- The numeral with a point, and with a zero behind it if no digits are there. -/
def pointed (w : Written) : Written :=
  { w with fraction? := some (w.fraction?.getD Digits.zero) }

theorem pointed_of_fraction {digits : Digits} (hfraction : w.fraction? = some digits) :
    w.pointed = w := by
  rw [pointed, hfraction, Option.getD_some, ← hfraction]

theorem pointed_of_no_fraction (hfraction : w.fraction? = none) :
    w.pointed = { w with fraction? := some Digits.zero } := by
  rw [pointed, hfraction, Option.getD_none]

/-- A zero behind the point counts nothing. -/
theorem value_pointed (w : Written) : w.pointed.value = w.value := by
  cases hfraction : w.fraction? with
  | some digits => rw [pointed_of_fraction hfraction]
  | none =>
      have hzero : Text.numeralValue (w.whole.val ++ Digits.zero.val) =
          Text.numeralValue w.whole.val * 10 ^ 1 :=
        Text.numeralValue_append_zeros w.whole.val 1
      have hexponent : w.exponent?.elim 0 (·.value) - (Digits.zero.val.length : Int) + (1 : Nat) =
          w.exponent?.elim 0 (·.value) - (([] : Text).length : Int) := by
        simp [Digits.zero]
      rw [pointed_of_no_fraction hfraction]
      simp only [value, fraction, hfraction, Option.elim_none, Option.elim_some, List.append_nil]
      rw [hzero, scaled_eq, hexponent]

/-! ## Reading the parts off the text -/

theorem not_digit_head_exponentText (w : Written) :
    ∀ c ∈ w.exponentText.head?, c.isDigit = false := by
  rw [exponentText]
  cases w.exponent? with
  | none => simp
  | some power => simp

theorem not_digit_head_tail (w : Written) :
    ∀ c ∈ (w.fractionText ++ w.exponentText).head?, c.isDigit = false := by
  cases hfraction : w.fraction? with
  | none =>
      rw [fractionText, hfraction]
      exact w.not_digit_head_exponentText
  | some digits => simp [fractionText, hfraction]

theorem exponent?_injective (hsame : w.exponentText = w'.exponentText) :
    w.exponent? = w'.exponent? := by
  simp only [exponentText] at hsame
  cases hexponent : w.exponent? with
  | none =>
      cases hexponent' : w'.exponent? with
      | none => rfl
      | some power' => simp [hexponent, hexponent'] at hsame
  | some power =>
      cases hexponent' : w'.exponent? with
      | none => simp [hexponent, hexponent'] at hsame
      | some power' =>
          obtain ⟨t, n, hsigned⟩ := power
          obtain ⟨t', n', hsigned'⟩ := power'
          obtain rfl : t = t' := by simpa [hexponent, hexponent'] using hsame
          have hvalue := (Text.signed?_eq_some_iff.2 hsigned).symm.trans
            (Text.signed?_eq_some_iff.2 hsigned')
          obtain rfl := Option.some.inj hvalue
          rfl

/-- Behind the digits of units stand a point with digits, a letter with a power, both or nothing. -/
theorem tail_injective
    (hsame : w.fractionText ++ w.exponentText = w'.fractionText ++ w'.exponentText) :
    w.fraction? = w'.fraction? ∧ w.exponent? = w'.exponent? := by
  -- No exponent begins with a point.
  have hpoint : ∀ (v : Written) (rest : Text), v.exponentText ≠ '.' :: rest := by
    intro v rest
    rw [exponentText]
    cases v.exponent? with
    | none => simp
    | some power => simp
  simp only [fractionText] at hsame
  cases hfraction : w.fraction? with
  | none =>
      cases hfraction' : w'.fraction? with
      | none =>
          simp only [hfraction, hfraction', Option.elim_none, List.nil_append] at hsame
          exact ⟨rfl, exponent?_injective hsame⟩
      | some digits' =>
          simp only [hfraction, hfraction', Option.elim_none, Option.elim_some, List.nil_append]
            at hsame
          exact absurd hsame (hpoint w _)
  | some digits =>
      cases hfraction' : w'.fraction? with
      | none =>
          simp only [hfraction, hfraction', Option.elim_none, Option.elim_some, List.nil_append]
            at hsame
          exact absurd hsame.symm (hpoint w' _)
      | some digits' =>
          simp only [hfraction, hfraction', Option.elim_some, List.cons_append, List.cons.injEq,
            true_and] at hsame
          obtain ⟨hdigits, hpower⟩ := Text.eq_of_digits_append digits.property.isDigit
            digits'.property.isDigit w.not_digit_head_exponentText w'.not_digit_head_exponentText
            hsame
          exact ⟨congrArg some (Subtype.ext hdigits), exponent?_injective hpower⟩

/-- Only a negative numeral begins with a minus sign. -/
theorem negative_iff_head : w.negative = true ↔ w.text.head? = some '-' := by
  obtain ⟨c, rest, hwhole⟩ := List.exists_cons_of_ne_nil w.whole.property.ne_nil
  have hdigit : c ≠ '-' := by
    rintro rfl
    cases w.whole.property.isDigit '-' (by simp [hwhole])
  cases hnegative : w.negative with
  | true => simp [text, hnegative, sign]
  | false => simp [text, hnegative, sign, hwhole, hdigit]

/-- The parts of a numeral can be read off its text. -/
theorem text_injective (hsame : w.text = w'.text) : w = w' := by
  have hnegative : w.negative = w'.negative := by
    rw [Bool.eq_iff_iff, negative_iff_head, negative_iff_head, hsame]
  have hunsigned : w.whole.val ++ (w.fractionText ++ w.exponentText) =
      w'.whole.val ++ (w'.fractionText ++ w'.exponentText) := by
    simpa [text, hnegative] using hsame
  obtain ⟨hwhole, htail⟩ := Text.eq_of_digits_append w.whole.property.isDigit
    w'.whole.property.isDigit w.not_digit_head_tail w'.not_digit_head_tail hunsigned
  obtain ⟨hfraction, hexponent⟩ := tail_injective htail
  obtain ⟨negative, whole, fraction?, exponent?⟩ := w
  obtain ⟨negative', whole', fraction?', exponent?'⟩ := w'
  simp only [mk.injEq]
  exact ⟨hnegative, Subtype.ext hwhole, hfraction, hexponent⟩

end Written

/-! ## Putting a point in -/

/-- A formatted number with a point: as it is if it has one, otherwise with a point and a zero
before its exponent, or at its end. -/
def insertPoint (t : Text) : Text :=
  if '.' ∈ t then t
  else
    match Text.splitOnce? ['e'] t with
    | some (front, power) => front ++ ".0e" ++ power
    | none => t ++ ".0"

theorem Digits.not_mem (digits : Digits) {c : Char} (hc : c.isDigit = false) : c ∉ digits.val := by
  intro hmem
  rw [digits.property.isDigit c hmem] at hc
  cases hc

theorem Power.point_not_mem (power : Power) : '.' ∉ power.text := by
  obtain ⟨t, n, hsigned⟩ := power
  cases hsigned with
  | plain hdigits => exact Digits.not_mem ⟨_, hdigits⟩ rfl
  | plus hdigits => simpa using Digits.not_mem ⟨_, hdigits⟩ rfl
  | minus hdigits => simpa using Digits.not_mem ⟨_, hdigits⟩ rfl

namespace Written

/-- In a numeral of any form the point goes directly behind the digits of units. -/
theorem insertPoint_text (w : Written) : insertPoint w.text = w.pointed.text := by
  cases hfraction : w.fraction? with
  | some digits =>
      have hpoint : '.' ∈ w.text := by simp [text, fractionText, hfraction]
      rw [pointed_of_fraction hfraction, insertPoint, if_pos hpoint]
  | none =>
      have hfront : ∀ c, c.isDigit = false → c ≠ '-' → c ∉ sign w.negative ++ w.whole.val := by
        intro c hc hminus hmem
        rcases List.mem_append.1 hmem with hsign | hwhole
        · cases hnegative : w.negative <;> simp [sign, hnegative, hminus] at hsign
        · exact w.whole.not_mem hc hwhole
      have hpoint := hfront '.' rfl (by decide)
      have hletter := hfront 'e' rfl (by decide)
      have htext : w.text = sign w.negative ++ w.whole.val ++ w.exponentText := by
        rw [text, fractionText, hfraction, Option.elim_none, List.append_nil]
      have hpointed :
          w.pointed.text = sign w.negative ++ w.whole.val ++ ".0" ++ w.exponentText := by
        rw [pointed_of_no_fraction hfraction]
        rfl
      rw [hpointed, htext]
      generalize sign w.negative ++ w.whole.val = front at hpoint hletter
      cases hexponent : w.exponent? with
      | none =>
          have hnone : Text.splitOnce? ['e'] front = none := by
            refine Text.splitOnce?_eq_none_iff.2 fun before after hcut => hletter ?_
            simp [hcut]
          simp [insertPoint, exponentText, hexponent, hpoint, hnone]
      | some power =>
          have hfirst : Text.splitOnce? ['e'] ('e' :: power.text) = some ([], power.text) := rfl
          have hsplit := Text.splitOnce?_append_left rfl hletter hfirst
          simp [insertPoint, exponentText, hexponent, hpoint, power.point_not_mem, hsplit]

end Written
end Decimal
end Stencil
