import Stencil.Text.Blank

namespace Stencil
namespace Text

/-!
# Written integers

An integer is written with decimal digits after an optional sign.  Only those
that fit 64 bits are read.
-/

/-- The number of a row of decimal digits, at least one. -/
def nat? (t : Text) : Option Nat :=
  if !t.isEmpty && t.all Char.isDigit then some (digitsToNat t) else none

/-- An integer that fits 64 bits, with white space around it. -/
def int64? (t : Text) : Option Int :=
  let n? : Option Int :=
    match t.trim with
    | '-' :: digits => (nat? digits).map fun n => -(n : Int)
    | '+' :: digits => (nat? digits).map fun n => (n : Int)
    | digits => (nat? digits).map fun n => (n : Int)
  let bound : Int := Nat.pow 2 63
  n?.filter fun n => -bound ≤ n && n < bound

end Text
end Stencil
