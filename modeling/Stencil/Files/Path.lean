import Stencil.Text.Search

namespace Stencil
namespace Path

/-!
# Paths

A path is a text whose segments are separated by slashes.  Empty segments and
`.` stay where they are, and only a `.` at the start of a relative path means
anything; `..` leads to the directory above.  A path is of use only if it is short
enough and does not hold the character U+0000, which ends paths.
-/

/-- The most bytes that a path may take. -/
def greatestSize : Nat := 4095

/-- The most bytes that a name may take. -/
def greatestNameSize : Nat := 255

/-- Whether a path can lead anywhere; the empty path cannot. -/
def isUsable (path : Text) : Bool :=
  !path.isEmpty && path.all (· ≠ '\x00') && path.byteSize ≤ greatestSize

/-- Whether a segment is short enough for a name. -/
def isName (segment : Text) : Bool := segment.byteSize ≤ greatestNameSize

/-- Whether a segment leaves the place as it is. -/
def isIdle (segment : Text) : Bool := segment.isEmpty || segment = ['.']

/-- Whether a segment leads to the directory above. -/
def isParent (segment : Text) : Bool := segment = ['.', '.']

def segments (t : Text) : List Text := t.splitOnP (· = '/')

/-- The start of a path that is not a name, a slash or a `.`, and what follows it. -/
def splitStart : Text → Text × Text
  | '/' :: rest => ("/", rest)
  | ['.'] => (".", [])
  | '.' :: '/' :: rest => (".", '/' :: rest)
  | t => ([], t)

/-- The segments after the start of a path, the last one first, without idle ones at the
end. -/
def backwards (path : Text) : List Text :=
  (segments (splitStart path).2).reverse.dropWhile isIdle

/-- Whether the last segment of a path is `.`, slashes after it aside. -/
def endsInDot (path : Text) : Bool :=
  ((segments path).reverse.dropWhile (·.isEmpty)).head? = some ['.']

/-- The name of the file that a path leads to. -/
def fileName? (path : Text) : Option Text :=
  match backwards path with
  | [] => none
  | last :: _ => if isParent last then none else some last

/-- The path without its last segment. -/
def parent? (path : Text) : Option Text :=
  let start := (splitStart path).1
  match backwards path with
  | _ :: rest => some (start ++ Text.joined "/" (rest.dropWhile isIdle).reverse)
  | [] => if start = ['.'] then some [] else none

/-- A path to a name in a directory. -/
def join (directory name : Text) : Text :=
  match directory.getLast? with
  | none => name
  | some '/' => directory ++ name
  | some _ => directory ++ "/" ++ name

/-- The path with another name of the file. -/
def withFileName (path name : Text) : Text :=
  match fileName? path, parent? path with
  | some _, some directory => join directory name
  | _, _ => join path name

/-- What follows the last point of a file name, unless that point comes first. -/
def extension? (path : Text) : Option Text :=
  (fileName? path).bind fun name =>
    let after := (name.reverse.takeWhile (· ≠ '.')).reverse
    let before := name.take (name.length - after.length - 1)
    if before.isEmpty then none else some after

/-- The part of a template's name that its destination lacks. -/
def templateMark : Text := ".dm."

/-- Whether a path leads to a template. -/
def isTemplate (path : Text) : Bool :=
  match fileName? path with
  | some name => Text.has templateMark name
  | none => false

/-- The path to the file that a template is expanded into. -/
def destination? (path : Text) : Option Text :=
  match fileName? path with
  | some name =>
      if Text.has templateMark name then
        some (withFileName path (Text.replaceFirst templateMark "." name))
      else none
  | none => none

end Path
end Stencil
