import Stencil.Text.Basic

namespace Stencil

/-!
# Binary fractions of double precision

A double is a sign, a significand below `2 ^ 53` and a power of two.  Numbers
are rounded to the nearest double, a tie going to the even significand; a number
too large for every double has none.  Products and quotients are computed
exactly and rounded once.
-/

/-- The number `significand * 2 ^ exponent`, with its sign.  Zero has a sign too. -/
structure Double where
  negative : Bool
  significand : Nat
  exponent : Int
  deriving DecidableEq, Repr

namespace Double

/-- The exponent of the numbers closest to zero. -/
def leastExponent : Int := -1074

/-- The exponent of the largest numbers. -/
def greatestExponent : Int := 971

def zero (negative : Bool) : Double := ⟨negative, 0, leastExponent⟩

/-- Whether two doubles are the same number: the two zeros are. -/
def sameNumber (a b : Double) : Bool :=
  (a.significand == 0 && b.significand == 0) || a == b

/-- The natural number nearest to `num / den`, a tie going to the even one. -/
def roundToEven (num den : Nat) : Nat :=
  let below := num / den
  let double := 2 * (num % den)
  if double < den then below
  else if den < double then below + 1
  else if below % 2 = 0 then below
  else below + 1

/-- The quotient `num / den / 2 ^ exponent` as a numerator and a denominator. -/
def scaled (num den : Nat) (exponent : Int) : Nat × Nat :=
  (num * Nat.pow 2 (-exponent).toNat, den * Nat.pow 2 exponent.toNat)

/-- The exponent at which `num / den`, not zero, has a significand of 53 bits, or the
least exponent if that is greater. -/
def exponentFor (num den : Nat) : Int :=
  let guess : Int := (num.log2 : Int) - den.log2 - 52
  let (top, bottom) := scaled num den guess
  let exact := if top / bottom < Nat.pow 2 52 then guess - 1 else guess
  max exact leastExponent

/-- The double nearest to `num / den`, if that is not too large. -/
def nearest? (negative : Bool) (num den : Nat) : Option Double :=
  if num = 0 then some (zero negative)
  else
    let exponent := exponentFor num den
    let (top, bottom) := scaled num den exponent
    let significand := roundToEven top bottom
    let rounded : Double :=
      if significand = Nat.pow 2 53 then ⟨negative, Nat.pow 2 52, exponent + 1⟩
      else ⟨negative, significand, exponent⟩
    if rounded.exponent ≤ greatestExponent then some rounded else none

/-- The double nearest to the product of two doubles. -/
def product? (a b : Double) : Option Double :=
  let (num, den) := scaled (a.significand * b.significand) 1 (-(a.exponent + b.exponent))
  nearest? (a.negative != b.negative) num den

/-- The double nearest to the quotient of two doubles, the second of which is not zero. -/
def quotient? (a b : Double) : Option Double :=
  let (num, den) := scaled a.significand b.significand (b.exponent - a.exponent)
  nearest? (a.negative != b.negative) num den

end Double
end Stencil
