import Stencil.Decimal.Numeral

namespace Stencil
namespace Decimal

/-!
# The shortest decimal that reads back

The decimals that read as a given double fill an interval around it, whose ends
belong to it exactly if the significand is even.  For one digit, two digits and
so on, the two decimals of that many digits next to the number are tested in
exact arithmetic: the first length with a decimal inside the interval wins, and
of two such decimals the nearer.  Which way a tie goes is a parameter.
-/

/-- Which of two equally near decimals is taken. -/
inductive Tie where
  | toEven
  | up
  deriving DecidableEq, Repr

/-- The interval of the numbers that read as a given one.  All four numbers are
multiples of the same unit `1 / den`. -/
structure Interval where
  low : Nat
  value : Nat
  high : Nat
  den : Nat
  closed : Bool
  deriving Repr

/-- The interval of `significand * 2 ^ exponent`: half a unit up, and half a unit down,
or a quarter if the numbers below are twice as dense. -/
def Interval.around (significand : Nat) (exponent : Int) : Interval :=
  let narrow := significand = Nat.pow 2 52 ∧ Double.leastExponent < exponent
  let unit := Nat.pow 2 (exponent - 2).toNat
  { low := (if narrow then 4 * significand - 1 else 4 * significand - 2) * unit
    value := 4 * significand * unit
    high := (4 * significand + 2) * unit
    den := Nat.pow 2 (2 - exponent).toNat
    closed := significand % 2 = 0 }

/-- The sign of `n - digits * 10 ^ exponent`, with `n` counted in units of the interval. -/
def Interval.compareTo (i : Interval) (n : Nat) (point : Numeral) : Ordering :=
  compare (n * Nat.pow 10 (-point.exponent).toNat)
    (point.digits * Nat.pow 10 point.exponent.toNat * i.den)

/-- Whether a decimal lies in the interval. -/
def Interval.holds (i : Interval) (point : Numeral) : Bool :=
  match i.compareTo i.low point, i.compareTo i.high point with
  | .lt, .gt => true
  | .eq, _ => i.closed
  | _, .eq => i.closed
  | _, _ => false

/-- The exponent of ten of the first digit of `num / den`, which is not zero. -/
def magnitude (num den : Nat) : Int :=
  if den ≤ num then ((Text.ofNat (num / den)).length : Int) - 1
  else -((Text.ofNat ((den + num - 1) / num - 1)).length : Int)

/-- The decimal of `count` digits inside the interval that is nearest to its number. -/
def Interval.nearest? (i : Interval) (tie : Tie) (first : Int) (count : Nat) : Option Numeral :=
  let exponent := first - (count : Int) + 1
  let digits := i.value * Nat.pow 10 (-exponent).toNat / (i.den * Nat.pow 10 exponent.toNat)
  let lower : Numeral := ⟨digits, exponent⟩
  let upper : Numeral := ⟨digits + 1, exponent⟩
  match i.holds lower, i.holds upper with
  | false, false => none
  | true, false => some lower
  | false, true => some upper
  | true, true =>
      match i.compareTo (2 * i.value) ⟨2 * digits + 1, exponent⟩ with
      | .lt => some lower
      | .gt => some upper
      | .eq =>
          match tie with
          | .up => some upper
          | .toEven => if digits % 2 = 0 then some lower else some upper

/-- A decimal without the zeros at the end of its digits. -/
def Numeral.trimmed : Nat → Numeral → Numeral
  | 0, n => n
  | fuel + 1, n =>
      if n.digits ≠ 0 ∧ n.digits % 10 = 0 then
        trimmed fuel ⟨n.digits / 10, n.exponent + 1⟩
      else n

/-- Seventeen digits tell all doubles apart. -/
def greatestLength : Nat := 17

/-- The shortest decimal that reads as `significand * 2 ^ exponent`. -/
def shortest (tie : Tie) (significand : Nat) (exponent : Int) : Numeral :=
  if significand = 0 then ⟨0, 0⟩
  else
    let i := Interval.around significand exponent
    let first := magnitude i.value i.den
    let found := (List.range greatestLength).findSome? fun k => i.nearest? tie first (k + 1)
    match found with
    | some n => n.trimmed greatestLength
    | none => ⟨significand * Nat.pow 2 exponent.toNat, 0⟩

end Decimal
end Stencil
