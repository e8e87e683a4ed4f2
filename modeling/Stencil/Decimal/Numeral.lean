import Stencil.Decimal.Double

namespace Stencil
namespace Decimal

/-!
# Numerals

A numeral is a natural number times a power of ten.  The number that is read
from digits has to fit 64 bits: digits are taken as long as it does, those of
the integer part that are not taken raise the exponent, and those of the
fraction are left out.

The double of a numeral is computed with doubles.  Its number is multiplied or
divided by the power of ten, and the number, the power and the result are each
rounded to the nearest double.  So it is the double nearest to the numeral when
the number and the power are doubles, and may be another one close to it
otherwise.  A power beyond the doubles is divided by in steps, and not
multiplied with.
-/

/-- The decimal `digits * 10 ^ exponent`. -/
structure Numeral where
  digits : Nat
  exponent : Int
  deriving DecidableEq, Repr

/-- The greatest number that is read from digits. -/
def greatestNumber : Nat := Nat.pow 2 64 - 1

/-- A number with digits appended as long as it fits, and the number of digits left. -/
def appendDigits : Nat → Text → Nat × Nat
  | n, [] => (n, 0)
  | n, c :: rest =>
      let longer := 10 * n + (c.toNat - 48)
      if longer ≤ greatestNumber then appendDigits longer rest else (n, rest.length + 1)

/-- The greatest power of ten that is multiplied or divided by at once. -/
def greatestPower : Nat := 308

/-- The double nearest to a power of ten. -/
def powerOfTen? (k : Nat) : Option Double := Double.nearest? false (Nat.pow 10 k) 1

/-- A double divided by the greatest power a number of times, or until it is zero. -/
def dividedInSteps? : Nat → Double → Option Double
  | 0, d => some d
  | steps + 1, d =>
      if d.significand = 0 then some d
      else ((powerOfTen? greatestPower).bind d.quotient?).bind (dividedInSteps? steps)

/-- A double divided by `10 ^ k`, where `k` is not zero.  As many greatest powers as leave
one power to divide by come first. -/
def dividedByPower? (d : Double) (k : Nat) : Option Double :=
  let steps := (k - 1) / greatestPower
  (dividedInSteps? steps d).bind fun rest =>
    (powerOfTen? (k - steps * greatestPower)).bind rest.quotient?

/-- A double times a power of ten, if that is not too large. -/
def timesPower? (d : Double) (exponent : Int) : Option Double :=
  if d.significand = 0 then some d
  else if exponent < 0 then dividedByPower? d (-exponent).toNat
  else if exponent ≤ greatestPower then (powerOfTen? exponent.toNat).bind d.product?
  else none

namespace Numeral

/-- The numeral of the digits of an integer. -/
def ofDigits (digits : Text) : Numeral :=
  let (n, left) := appendDigits 0 digits
  ⟨n, left⟩

/-- The numeral with the digits of a fraction after it. -/
def withFraction (n : Numeral) (fraction : Text) : Numeral :=
  let (longer, left) := appendDigits n.digits fraction
  ⟨longer, n.exponent - (fraction.length - left : Nat)⟩

/-- The numeral times a power of ten. -/
def shifted (n : Numeral) (exponent : Int) : Numeral := { n with exponent := n.exponent + exponent }

/-- The double of a numeral with a sign, if it is not too large. -/
def toDouble? (negative : Bool) (n : Numeral) : Option Double :=
  (Double.nearest? negative n.digits 1).bind (timesPower? · n.exponent)

end Numeral

end Decimal
end Stencil
