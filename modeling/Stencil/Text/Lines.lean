import Stencil.Text.Search

namespace Stencil

/-!
# Lines and positions

A text is the concatenation of its lines, each of which but perhaps the last
ends with its line feed.  A position counts lines from one and gives the number
of bytes before it on its line.
-/

namespace Text

/-- The lines of a text, each with the line feed that ends it. -/
def lines : Text → List Text
  | [] => []
  | c :: rest => if c = '\n' then [c] :: lines rest else extendFirst c (lines rest)

/-- The lines of a text make up the text. -/
theorem flatten_lines (t : Text) : (lines t).flatten = t := by
  induction t with
  | nil => rfl
  | cons c rest ih =>
      by_cases h : c = '\n'
      · simp [lines, h, ih]
      · simp only [lines, h, if_false]
        cases hl : lines rest with
        | nil => simp [hl] at ih; simp [extendFirst, ← ih]
        | cons line others => simp [hl] at ih; simp [extendFirst, ← ih]

end Text

/-- A place in a text: the number of its line, and the bytes before it on that line. -/
structure Position where
  line : Nat
  column : Nat
  deriving DecidableEq, Repr

namespace Position

/-- The position `offset` bytes after `start`, where `t` is the text that follows `start`. -/
def advance (start : Position) : Text → Nat → Position
  | [], _ => start
  | c :: rest, offset =>
      if offset = 0 then start
      else if offset < c.utf8Size then ⟨start.line, start.column + offset⟩
      else if c = '\n' then advance ⟨start.line + 1, 0⟩ rest (offset - c.utf8Size)
      else advance ⟨start.line, start.column + c.utf8Size⟩ rest (offset - c.utf8Size)

def ofOffset (source : Text) (offset : Nat) : Position := advance ⟨1, 0⟩ source offset

/-- The byte that a position points at when columns count from one: the last byte before
the position on its line, or the start of the line.  Lines that the text does not have
stand for its end, and there is no line zero. -/
def byteBefore? (source : Text) (position : Position) : Option Nat :=
  match position.line with
  | 0 => none
  | index + 1 =>
      let lines := Text.lines source
      match lines[index]? with
      | none => some (Text.byteSize source)
      | some line =>
          some (Text.byteSize (lines.take index).flatten
            + min (position.column - 1) (Text.byteSize line))

end Position
end Stencil
