import Stencil.Engine.Basic

namespace Stencil

/-!
# Checked default values

The default value of every attribute has to be a value of its type.
-/

/-- A default value that is not a value of its type. -/
structure DefaultError where
  component : Text
  name : Text
  typeName : Text
  cause : RenderError

namespace Engine

/-- Checks the default values of the attributes of a component. -/
def validateAttributes (engine : Engine) (component : Text) :
    List Attribute → Except DefaultError Unit
  | [] => .ok ()
  | a :: rest =>
      match engine.render a.typeName a.default with
      | .ok _ => validateAttributes engine component rest
      | .error cause => .error ⟨component, a.name, a.typeName, cause⟩

def validateComponents (engine : Engine) : List Component → Except DefaultError Unit
  | [] => .ok ()
  | c :: rest => do
      validateAttributes engine c.name c.attributes
      validateComponents engine rest

/-- Checks the default values of a spec, up to the first that is not a value of its type. -/
def validate (engine : Engine) (spec : Spec) : Except DefaultError Unit :=
  validateComponents engine spec.components

end Engine
end Stencil
