import Stencil.Files.Path

namespace Stencil

/-!
# Banners

A banner is the first line of a generated file.  The usual one is a comment in
the syntax that the extension of the file implies.
-/

/-- The first line for a destination, if there is one. -/
abbrev Banner := Text → Option Text

namespace Banner

/-- The text that marks generated files. -/
def mark : Text := "GENERATED FILE"

/-- The beginning of a comment line in files with an extension. -/
def commentPrefix (extension : Text) : Text :=
  if extension ∈ (["lua", "sql"] : List String).map String.toList then "--"
  else if extension ∈
      (["py", "sh", "toml", "yaml", "yml", "cmake", "txt"] : List String).map String.toList then
    "#"
  else "//"

def comment : Banner := fun destination =>
  some (commentPrefix ((Path.extension? destination).getD []) ++ " " ++ mark)

def none : Banner := fun _ => .none

/-- The text of a file with its banner. -/
def prepend (banner : Banner) (destination body : Text) : Text :=
  match banner destination with
  | some line => line ++ "\n" ++ body
  | .none => body

end Banner
end Stencil
