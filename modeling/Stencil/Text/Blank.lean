import Stencil.Text.Basic

namespace Stencil

/-!
# White space

A character is white when it has the Unicode property `White_Space`.  The
property has 25 members; U+200B, U+FEFF and the separators U+001C to U+001F
are not among them.  Trimming and splitting into words follow this class.
-/

structure CodeRange where
  first : Nat
  last : Nat
  deriving DecidableEq, Repr

/-- The members of the Unicode property `White_Space`. -/
def whiteSpaceRanges : List CodeRange :=
  [⟨0x0009, 0x000D⟩, ⟨0x0020, 0x0020⟩, ⟨0x0085, 0x0085⟩, ⟨0x00A0, 0x00A0⟩, ⟨0x1680, 0x1680⟩,
   ⟨0x2000, 0x200A⟩, ⟨0x2028, 0x2029⟩, ⟨0x202F, 0x202F⟩, ⟨0x205F, 0x205F⟩, ⟨0x3000, 0x3000⟩]

def isWhite (c : Char) : Bool :=
  whiteSpaceRanges.any fun range => range.first ≤ c.toNat && c.toNat ≤ range.last

/-- The table lists the 25 members of the property. -/
example : (whiteSpaceRanges.map fun range => range.last + 1 - range.first).sum = 25 := by decide

namespace Text

/-- Whether every character of a text is white space. -/
def isBlank (t : Text) : Bool := t.all isWhite

/-- A text without the white space at its start. -/
def trimStart (t : Text) : Text := t.dropWhile isWhite

/-- A text without its longest end of characters that satisfy `p`. -/
def dropEndWhile (p : Char → Bool) : Text → Text
  | [] => []
  | c :: rest =>
      match dropEndWhile p rest with
      | [] => if p c then [] else [c]
      | kept => c :: kept

/-- A text without the white space at its end. -/
def trimEnd (t : Text) : Text := dropEndWhile isWhite t

/-- A text without the white space at both of its ends. -/
def trim (t : Text) : Text := trimEnd (trimStart t)

/-- The longest rows of characters that are not white space. -/
def words (t : Text) : List Text :=
  (t.splitOnP isWhite).filter fun word => !word.isEmpty

end Text
end Stencil
