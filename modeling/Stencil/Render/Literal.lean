import Stencil.Decimal.Style
import Stencil.Render.Error

namespace Stencil
namespace Literal

/-!
# Literals

The C++ literals of numbers, truth values, characters and strings.  A
floating-point numeral always has a decimal point; inside quotes, backslashes,
line feeds, tabs, carriage returns and the quote itself are escaped.
-/

/-- A value as a literal of a type that asks for no other type. -/
abbrev Scalar := Text → Json → Except RenderError Text

/-- The numerals of floating-point literals: positional for exponents from -4 to 15, a
point before every exponent, no plus sign; of two equally near digits the greater. -/
def numeralStyle : Decimal.Style where
  least := -4
  greatest := 15
  alwaysPoint := true
  plusSign := false
  tie := .up

/-- An integer type and its values. -/
structure IntegerType where
  name : Text
  least : Int
  greatest : Int

/-- A type of so many bits, one of them for the sign. -/
def signed (name : Text) (bits : Nat) : IntegerType :=
  ⟨name, -(Nat.pow 2 (bits - 1) : Int), (Nat.pow 2 (bits - 1) : Int) - 1⟩

/-- A type of so many bits without a sign. -/
def unsigned (name : Text) (bits : Nat) : IntegerType :=
  ⟨name, 0, (Nat.pow 2 bits : Int) - 1⟩

def integerTypes : List IntegerType :=
  [signed "int" 32, unsigned "unsigned" 32, signed "long" 64, unsigned "std::size_t" 64,
   signed "std::int8_t" 8, signed "std::int16_t" 16, signed "std::int32_t" 32,
   signed "std::int64_t" 64, unsigned "std::uint8_t" 8, unsigned "std::uint16_t" 16,
   unsigned "std::uint32_t" 32, unsigned "std::uint64_t" 64]

/-- An integer of a type. -/
def integer (range : IntegerType) : Scalar := fun type value =>
  match value with
  | .number (.integer n) =>
      if range.least = 0 ∧ n < 0 then .error (.mismatch type value .nonNegativeInteger)
      else if n < range.least ∨ range.greatest < n then
        .error (.mismatch type value (.inRange range.least range.greatest))
      else .ok (Text.ofInt n)
  | _ => .error (.mismatch type value .integer)

/-- A numeral with a decimal point. -/
def Number.withPoint : Json.Number → Text
  | .integer n => Text.ofInt n ++ ".0"
  | .double d => numeralStyle.write d

def double : Scalar := fun type value =>
  match value with
  | .number n => .ok (Number.withPoint n)
  | _ => .error (.mismatch type value .number)

def float : Scalar := fun type value => (double type value).map (· ++ "f")

def truth : Scalar := fun type value =>
  match value with
  | .bool b => .ok (Text.ofBool b)
  | _ => .error (.mismatch type value .truthValue)

/-- A character between quotes of the kind `quote`. -/
def escaped (quote c : Char) : Text :=
  if c = quote then ['\\', c]
  else if c = '\\' then "\\\\"
  else if c = '\n' then "\\n"
  else if c = '\t' then "\\t"
  else if c = '\r' then "\\r"
  else [c]

/-- A text between quotes of the kind `quote`. -/
def quoted (quote : Char) (t : Text) : Text := quote :: t.flatMap (escaped quote) ++ [quote]

def character : Scalar := fun type value =>
  match value with
  | .string [c] => .ok (quoted '\'' [c])
  | _ => .error (.mismatch type value .singleCharacter)

def string : Scalar := fun type value =>
  match value with
  | .string s => .ok (quoted '"' s)
  | _ => .error (.mismatch type value .string)

/-- The source text of a callable, as it is. -/
def callable : Scalar := fun type value =>
  match value with
  | .string s => .ok s
  | _ => .error (.mismatch type value .sourceText)

/-- A type whose only value is the empty one. -/
def empty : Scalar := fun type value =>
  match value with
  | .null => .ok (TypeName.canonical type ++ "\x7b\x7d")
  | _ => .error (.mismatch type value .onlyNull)

end Literal
end Stencil
