import Stencil.Spec.Basic

namespace Stencil

/-!
# Views

A block of a template sees the components and attributes whose flags satisfy
its predicate.  A view holds just these, without their flags, so that nothing
is filtered twice.
-/

/-- An attribute that a block sees. -/
structure ViewAttribute where
  name : Text
  displayName : Text
  typeName : Text
  default : Json
  custom : Option Json

/-- A component that a block sees, with the attributes that it sees. -/
structure ViewComponent where
  name : Text
  displayName : Text
  attributes : List ViewAttribute

/-- The components that a block sees. -/
structure View where
  components : List ViewComponent

namespace ViewAttribute

def ofAttribute (a : Attribute) : ViewAttribute :=
  { name := a.name
    displayName := a.displayName
    typeName := a.typeName
    default := a.default
    custom := a.custom }

/-- Whether two optional values are both missing or equal. -/
def sameCustom : Option Json → Option Json → Bool
  | none, none => true
  | some a, some b => a.same b
  | _, _ => false

/-- Whether two attributes are equal in all respects. -/
def same (a b : ViewAttribute) : Bool :=
  a.name == b.name && a.displayName == b.displayName && a.typeName == b.typeName &&
    a.default.same b.default && sameCustom a.custom b.custom

/-- A field of the attribute.  Besides the fixed fields, the fields of custom data that is
an object can be reached. -/
def field? (a : ViewAttribute) (field : Text) : Option Json :=
  if field = "name" then some (.string a.name)
  else if field = "display_name" then some (.string a.displayName)
  else if field = "type" then some (.string a.typeName)
  else if field = "default" then some a.default
  else if field = "custom" then a.custom
  else a.custom.bind (Json.field? field)

end ViewAttribute

namespace ViewComponent

/-- The component with the attributes that satisfy the predicate. -/
def ofComponent (predicate : Flags) (c : Component) : ViewComponent :=
  { name := c.name
    displayName := c.displayName
    attributes :=
      (c.attributes.filter (·.flags.satisfies predicate)).map ViewAttribute.ofAttribute }

/-- Whether two lists of attributes are equal. -/
def sameAttributes : List ViewAttribute → List ViewAttribute → Bool
  | [], [] => true
  | a :: as, b :: bs => a.same b && sameAttributes as bs
  | _, _ => false

/-- Whether two components are equal in all respects. -/
def same (a b : ViewComponent) : Bool :=
  a.name == b.name && a.displayName == b.displayName && sameAttributes a.attributes b.attributes

def field? (c : ViewComponent) (field : Text) : Option Json :=
  if field = "name" then some (.string c.name)
  else if field = "display_name" then some (.string c.displayName)
  else none

end ViewComponent

namespace View

def component? (view : View) (name : Text) : Option ViewComponent :=
  view.components.find? (·.name = name)

end View

/-- The components and attributes of a spec that satisfy a predicate.  A spec without flags
is seen as a whole. -/
def Spec.view (spec : Spec) (predicate : Flags) : View :=
  let predicate := if spec.usesFlags then predicate else []
  { components :=
      (spec.components.filter (·.flags.satisfies predicate)).map
        (ViewComponent.ofComponent predicate) }

end Stencil
