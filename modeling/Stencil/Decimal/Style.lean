import Stencil.Decimal.Shortest

namespace Stencil
namespace Decimal

/-!
# Written numerals

A numeral style lays the digits of a double out: positional while the exponent
of the first digit lies in a range, with an exponent otherwise.
-/

/-- How the numerals of one format are laid out. -/
structure Style where
  /-- The least exponent of the first digit that is written positionally. -/
  least : Int
  /-- The greatest exponent of the first digit that is written positionally. -/
  greatest : Int
  /-- Whether a single digit before an exponent is followed by a point and a zero. -/
  alwaysPoint : Bool
  /-- Whether a positive exponent has a plus sign. -/
  plusSign : Bool
  /-- Which of two equally near digits is taken. -/
  tie : Tie
  deriving Repr

def Style.exponentText (style : Style) (exponent : Int) : Text :=
  if style.plusSign ∧ 0 ≤ exponent then "e+" ++ Text.ofInt exponent
  else "e" ++ Text.ofInt exponent

/-- The digits of `n` with a point after the digit of units, and at least one digit on
either side of it. -/
def positional (n : Numeral) : Text :=
  let digits := Text.ofNat n.digits
  if 0 ≤ n.exponent then
    digits ++ List.replicate n.exponent.toNat '0' ++ ".0"
  else
    let places := (-n.exponent).toNat
    if places < digits.length then
      digits.take (digits.length - places) ++ "." ++ digits.drop (digits.length - places)
    else
      "0." ++ List.replicate (places - digits.length) '0' ++ digits

/-- The digits of `n` with a point after the first one and an exponent of ten. -/
def Style.scientific (style : Style) (n : Numeral) : Text :=
  let digits := Text.ofNat n.digits
  let exponent := n.exponent + digits.length - 1
  let mantissa : Text :=
    match digits with
    | [] => []
    | [digit] => if style.alwaysPoint then digit :: ".0" else [digit]
    | digit :: rest => digit :: '.' :: rest
  mantissa ++ style.exponentText exponent

def Style.unsigned (style : Style) (n : Numeral) : Text :=
  let first := n.exponent + (Text.ofNat n.digits).length - 1
  if style.least ≤ first ∧ first ≤ style.greatest then positional n else style.scientific n

/-- A double in the style: its shortest digits after its sign. -/
def Style.write (style : Style) (d : Double) : Text :=
  let digits := style.unsigned (shortest style.tie d.significand d.exponent)
  if d.negative then '-' :: digits else digits

end Decimal
end Stencil
