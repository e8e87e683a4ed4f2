import Stencil.Spec.Document
import Stencil.Spec.Error
import Stencil.Text.Blank

namespace Stencil

/-!
# Well-formed specs

Names must not be blank, nor occur twice among the components or among the
attributes of a component; types must not be blank; flags must be declared.
The components are checked in order, each with its name first, then its flags,
then its attributes, and the first violation is the error.
-/

/-- A place in the document of a spec: the document, and the names on the way to the
object that is checked. -/
structure SourceContext where
  source : Text
  path : List Text := []
  deriving Repr

namespace SourceContext

/-- The context of an object inside the current one. -/
def push (context : SourceContext) (name : Text) : SourceContext :=
  { context with path := context.path ++ [name] }

/-- The names on the way to the object, joined by points. -/
def pathText (context : SourceContext) : Text := Text.joined "." context.path

/-- The object in words. -/
def describe (context : SourceContext) (kind : Text) : Text :=
  if context.path.isEmpty then kind else kind ++ " '" ++ context.pathText ++ "'"

/-- The first place where a text stands between quotes in the document, without the quotes.
The text is looked for as it is, not in its escaped form. -/
def findSpan (context : SourceContext) (text : Text) : Option Span :=
  (Text.find? ("\"" ++ text ++ "\"") context.source).map fun offset =>
    ⟨offset + 1, Text.byteSize text⟩

/-- Insists on declared flags. -/
def checkFlags (context : SourceContext) (flags defaults : Flags) (kind : Text) :
    Except SpecError Unit :=
  match flags.names.find? fun flag => !defaults.contains flag with
  | some flag => .error (.undeclaredFlag flag (context.describe kind) (context.findSpan flag))
  | none => .ok ()

/-- Insists on a name that is not blank. -/
def checkName (context : SourceContext) (name kind : Text) : Except SpecError Unit :=
  if name.isBlank then .error (.blankName (context.describe kind)) else .ok ()

end SourceContext

namespace Spec

/-- Checks the attributes of a component, after those with the names `seen`. -/
def checkAttributes (context : SourceContext) (component : Text) (defaults : Flags) :
    List Text → List Attribute → Except SpecError Unit
  | _, [] => .ok ()
  | seen, a :: rest => do
      context.checkName a.name "attribute"
      if a.name ∈ seen then
        throw (.duplicateAttribute component a.name (context.findSpan a.name))
      let inner := context.push a.name
      if a.typeName.isBlank then
        throw (.blankType (inner.describe "attribute") (context.findSpan a.name))
      inner.checkFlags a.flags defaults "attribute"
      checkAttributes context component defaults (a.name :: seen) rest

/-- Checks the components, after those with the names `seen`. -/
def checkComponents (context : SourceContext) (defaults : Flags) :
    List Text → List Component → Except SpecError Unit
  | _, [] => .ok ()
  | seen, c :: rest => do
      context.checkName c.name "component"
      if c.name ∈ seen then throw (.duplicateComponent c.name (context.findSpan c.name))
      let inner := context.push c.name
      inner.checkFlags c.flags defaults "component"
      checkAttributes inner c.name defaults [] c.attributes
      checkComponents context defaults (c.name :: seen) rest

/-- Checks a spec that was read from a document. -/
def check (spec : Spec) (source : Text) : Except SpecError Unit :=
  checkComponents { source } spec.flagDefaults [] spec.components

/-- The spec of a document, with a value for every flag. -/
def parse (source : Text) : Except SpecError Spec :=
  match Document.read source with
  | .error cause => .error (.malformed cause (cause.place? source))
  | .ok spec => (spec.check source).map fun _ => spec.resolveFlags

end Spec
end Stencil
