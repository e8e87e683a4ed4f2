namespace Stencil

/-!
# Texts

A text is the list of its characters.  Everything that a template, a token, a
type name or a message holds is a text; strings occur only where a program
meets its surroundings.  Offsets into a text are counted in bytes of its UTF-8
form, so the length of a text in bytes is defined here.
-/

/-- A text is the list of its characters. -/
abbrev Text := List Char

/-- A string literal stands for the text of its characters. -/
instance : Coe String Text := ⟨String.toList⟩

/-- Membership in a list of texts is decided by comparing texts. -/
instance (priority := 1100) : LawfulBEq Text := inferInstance

namespace Text

/-- The number of bytes that the UTF-8 form of a text takes. -/
def byteSize : Text → Nat
  | [] => 0
  | c :: rest => c.utf8Size + byteSize rest

@[simp]
theorem byteSize_nil : byteSize [] = 0 := rfl

@[simp]
theorem byteSize_cons (c : Char) (rest : Text) :
    byteSize (c :: rest) = c.utf8Size + byteSize rest := rfl

/-- The size of a joined text is the sum of the sizes. -/
@[simp]
theorem byteSize_append (s t : Text) : byteSize (s ++ t) = byteSize s + byteSize t := by
  induction s with
  | nil => simp
  | cons c s ih => simp [ih, Nat.add_assoc]

/-- Whether a text comes before another one in the order of their characters. -/
def precedes (s t : Text) : Bool := List.lex s t fun c d => decide (c < d)

/-- The texts of a list, one after the other, with `separator` between them. -/
def joined (separator : Text) : List Text → Text
  | [] => []
  | [piece] => piece
  | piece :: next :: rest => piece ++ separator ++ joined separator (next :: rest)

/-- The decimal digits of a natural number, at least one. -/
def ofNat (n : Nat) : Text :=
  if n < 10 then [Char.ofNat (48 + n)] else ofNat (n / 10) ++ [Char.ofNat (48 + n % 10)]
termination_by n
decreasing_by omega

/-- The decimal digits of an integer, after a minus sign if it is negative. -/
def ofInt : Int → Text
  | .ofNat n => ofNat n
  | .negSucc n => '-' :: ofNat (n + 1)

def ofBool : Bool → Text
  | true => "true"
  | false => "false"

/-- The number that a row of decimal digits denotes. -/
def digitsToNat (digits : Text) : Nat :=
  digits.foldl (fun n c => 10 * n + (c.toNat - 48)) 0

end Text
end Stencil
