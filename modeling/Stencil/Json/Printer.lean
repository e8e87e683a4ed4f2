import Stencil.Decimal.Style
import Stencil.Json.Value

namespace Stencil
namespace Json

/-!
# Printed JSON

The compact form of a value: no spaces, fields in their order, and escapes for
quotes, backslashes and control characters only.
-/

/-- The numerals of printed doubles: positional for exponents from -5 to 15, then with a
signed exponent and no forced point; a tie goes to the even digit. -/
def numeralStyle : Decimal.Style where
  least := -5
  greatest := 15
  alwaysPoint := false
  plusSign := true
  tie := .toEven

/-- The lower-case hexadecimal digit of a number below sixteen. -/
def hexDigit (n : Nat) : Char :=
  if n < 10 then Char.ofNat (48 + n) else Char.ofNat (87 + n)

def escapeChar (c : Char) : Text :=
  if c = '"' then "\\\""
  else if c = '\\' then "\\\\"
  else if c = '\n' then "\\n"
  else if c = '\r' then "\\r"
  else if c = '\t' then "\\t"
  else if c.toNat = 8 then "\\b"
  else if c.toNat = 12 then "\\f"
  else if c.toNat < 32 then
    "\\u00" ++ [hexDigit (c.toNat / 16), hexDigit (c.toNat % 16)]
  else [c]

def quoted (s : Text) : Text := '"' :: s.flatMap escapeChar ++ "\""

def Number.print : Number → Text
  | .integer n => Text.ofInt n
  | .double d => numeralStyle.write d

mutual

/-- The compact form of a value. -/
def print : Json → Text
  | .null => "null"
  | .bool b => Text.ofBool b
  | .number n => n.print
  | .string s => quoted s
  | .array items => "[" ++ Text.joined "," (printItems items) ++ "]"
  | .object fields => "\x7b" ++ Text.joined "," (printFields fields) ++ "\x7d"

/-- The compact forms of the items of an array. -/
def printItems : List Json → List Text
  | [] => []
  | item :: rest => print item :: printItems rest

/-- The compact forms of the fields of an object. -/
def printFields : List (Text × Json) → List Text
  | [] => []
  | (name, value) :: rest => (quoted name ++ ":" ++ print value) :: printFields rest

end

end Json
end Stencil
