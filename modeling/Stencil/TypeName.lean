import Stencil.Text.Blank
import Stencil.Text.Bracket
import Stencil.Text.Search

namespace Stencil
namespace TypeName

/-!
# Type names

A type name is a text such as `std::map<int, float>`.  Lists of type names are
separated by the commas that stand outside all brackets, and each name has one
canonical spelling, with no white space before a comma and one space after it.
-/

/-- The pieces of a text between the commas outside brackets, when the brackets in `stack`
are open at its start; nothing if the brackets do not match. -/
def topLevelPieces? : List Bracket → Text → Option (List Text)
  | [], [] => some [[]]
  | _ :: _, [] => none
  | stack, c :: rest =>
      if c = ',' ∧ stack = [] then (topLevelPieces? [] rest).map ([] :: ·)
      else
        match Bracket.step stack c with
        | none => none
        | some stack => (topLevelPieces? stack rest).map (Text.extendFirst c)

/-- The type names of a list.  A blank text is the empty list; otherwise the brackets have
to match and no name may be blank. -/
def splitList? (list : Text) : Option (List Text) :=
  if list.isBlank then some []
  else
    match topLevelPieces? [] list with
    | none => none
    | some pieces =>
        let names := pieces.map Text.trim
        if names.any (·.isEmpty) then none else some names

/-- A text with the white space around its commas in canonical form.  Read from the right:
white space before a comma goes, and a comma is followed by one space unless another
comma comes next. -/
def respaced : Text → Text
  | [] => []
  | c :: rest =>
      let tail := respaced rest
      let next := tail.trimStart
      if c = ',' then
        if next.head? = some ',' then ',' :: next else ',' :: ' ' :: next
      else if isWhite c ∧ next.head? = some ',' then next
      else c :: tail

/-- The canonical spelling of a type name. -/
def canonical (name : Text) : Text := respaced name.trim

end TypeName
end Stencil
