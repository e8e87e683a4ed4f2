import Stencil.Method.Builtin
import Stencil.Render.Builtin

namespace Stencil

/-!
# Engines

An engine knows types and methods.  It is built from the built-in ones and from
extensions, which add their types first and then their methods; the first
registration that is refused is the error of the whole build.
-/

/-- Why an engine is not built. -/
inductive ConfigurationError where
  | pattern (cause : PatternError)
  | method (cause : MethodError)
  deriving DecidableEq, Repr

/-- Types and methods to be added to an engine. -/
structure Extension where
  types : List (Text × TypeHandler)
  methods : List MethodRegistry.Addition

/-- The registered types and methods. -/
structure Engine where
  types : TypeRegistry
  methods : MethodRegistry

namespace Engine

def empty : Engine := ⟨Dispatcher.empty, MethodRegistry.empty⟩

/-- Adds the types and methods of an extension. -/
def extend (engine : Engine) (extension : Extension) : Except ConfigurationError Engine := do
  let types ← (engine.types.registerAll extension.types).mapError .pattern
  let methods ← (engine.methods.addAll extension.methods).mapError .method
  return ⟨types, methods⟩

def builtinExtension : Extension := ⟨TypeRegistry.builtinTypes, MethodRegistry.builtinMethods⟩

/-- The engine of the built-in types and methods and of extensions, in this order. -/
def build (extensions : List Extension) : Except ConfigurationError Engine :=
  (builtinExtension :: extensions).foldlM extend empty

/-- The engine of the built-in types and methods alone. -/
def builtin : Engine := ⟨TypeRegistry.builtin, MethodRegistry.builtin⟩

/-- Renders a value as a literal of a type. -/
def render (engine : Engine) (type : Text) (value : Json) : Except RenderError Text :=
  engine.types.render type value

end Engine
end Stencil
