import Stencil.Text.Blank
import Stencil.Text.Lines

namespace Stencil
namespace Template

/-!
# Lines of a template

A line is known by its number, by the byte at which it begins, and by its text
without the line feed and without the carriage returns before it.  Two markers,
each the first word of its line, open and close a block.
-/

/-- A line of a template. -/
structure SourceLine where
  /-- Lines are counted from one. -/
  number : Nat
  /-- The bytes before the line. -/
  offset : Nat
  text : Text
  deriving DecidableEq, Repr

/-- A raw line without the characters that end it. -/
def withoutEnd (raw : Text) : Text :=
  Text.dropEndWhile (· = '\r') (Text.dropEndWhile (· = '\n') raw)

/-- Raw lines with their numbers and offsets. -/
def numberedFrom : Nat → Nat → List Text → List SourceLine
  | _, _, [] => []
  | number, offset, raw :: rest =>
      ⟨number, offset, withoutEnd raw⟩ ::
        numberedFrom (number + 1) (offset + Text.byteSize raw) rest

def sourceLines (source : Text) : List SourceLine := numberedFrom 1 0 (Text.lines source)

/-- The word that opens a block. -/
def beginWord : Text := "DATAMATIC_BEGIN"

/-- The word that closes a block. -/
def endWord : Text := "DATAMATIC_END"

/-- What a line is in a template. -/
inductive Marker where
  /-- The line opens a block, with the text after its first word. -/
  | opens (words : Text)
  /-- The line closes a block, with the text after its first word. -/
  | closes (words : Text)
  /-- The line is text. -/
  | text
  deriving DecidableEq, Repr

/-- What a text is as a line of a template. -/
def Marker.of (t : Text) : Marker :=
  let trimmed := t.trim
  let word := trimmed.takeWhile fun c => !isWhite c
  let rest := Text.trim (trimmed.dropWhile fun c => !isWhite c)
  if word = beginWord then .opens rest
  else if word = endWord then .closes rest
  else .text

end Template
end Stencil
