import Stencil.Json.Value

namespace Stencil

/-!
# Component specs

A spec lists components, each with typed attributes that have a default value.
Components and attributes carry flags; the flags and their defaults are
declared once for the whole spec.
-/

/-- Flags with their values, in order of declaration. -/
abbrev Flags := Fields Bool

namespace Flags

/-- The defaults, in their order, with the values that `own` gives put in their place. -/
def resolve (defaults own : Flags) : Flags :=
  own.foldl (fun flags (flag, value) => Fields.insert flag value flags) defaults

/-- Whether every flag of a predicate has the value that the predicate asks for. -/
def satisfies (flags predicate : Flags) : Bool :=
  predicate.all fun (flag, value) => Fields.get? flag flags == some value

end Flags

/-- A typed field of a component. -/
structure Attribute where
  name : Text
  displayName : Text
  typeName : Text
  default : Json
  flags : Flags
  custom : Option Json

/-- A record whose attributes templates run through. -/
structure Component where
  name : Text
  displayName : Text
  attributes : List Attribute
  flags : Flags

/-- The components, and the flags with their defaults. -/
structure Spec where
  flagDefaults : Flags
  components : List Component

def Component.attribute? (component : Component) (name : Text) : Option Attribute :=
  component.attributes.find? (·.name = name)

namespace Spec

/-- Whether any flags are declared. -/
def usesFlags (spec : Spec) : Bool := !spec.flagDefaults.isEmpty

def component? (spec : Spec) (name : Text) : Option Component :=
  spec.components.find? (·.name = name)

/-- An attribute with a value for every declared flag. -/
def resolveAttribute (defaults : Flags) (a : Attribute) : Attribute :=
  { a with flags := Flags.resolve defaults a.flags }

/-- A component with a value for every declared flag, and so its attributes. -/
def resolveComponent (defaults : Flags) (c : Component) : Component :=
  { c with
    flags := Flags.resolve defaults c.flags
    attributes := c.attributes.map (resolveAttribute defaults) }

/-- The spec with a value for every declared flag on every component and attribute. -/
def resolveFlags (spec : Spec) : Spec :=
  { spec with components := spec.components.map (resolveComponent spec.flagDefaults) }

end Spec
end Stencil
