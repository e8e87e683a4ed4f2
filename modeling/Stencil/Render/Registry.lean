import Stencil.Render.Plan

namespace Stencil

/-!
# Rendering by type

A registry of types sends a value to the handler of its type, and the questions
of the handler back to itself.  The number of handlers that wait for each other
is bounded; a type whose handlers ask only for types with shorter names, as all
built-in ones do, stays below the bound whatever the value.
-/

abbrev TypeRegistry := Dispatcher TypeHandler

namespace TypeRegistry

/-- Renders a value as a type with at most `depth` handlers at work; nothing if these are
not enough. -/
def renderWithin (types : TypeRegistry) :
    Nat → Text → Json → Option (Except RenderError Text)
  | 0, _, _ => none
  | depth + 1, type, value =>
      let name := type.trim
      match types.resolve name with
      | .error cause => some (.error (.lookup cause))
      | .ok found => (found.handler name found.args value).run.run (renderWithin types depth)

/-- The number of handlers that may wait for each other besides one for each character of
the type name. -/
def spareDepth : Nat := 65536

/-- Renders a value as a literal of a type. -/
def render (types : TypeRegistry) (type : Text) (value : Json) : Except RenderError Text :=
  match renderWithin types (type.length + spareDepth) type value with
  | some result => result
  | none => .error (.tooDeep type.trim)

end TypeRegistry
end Stencil
