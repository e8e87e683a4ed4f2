import Stencil.Json.Printer
import Stencil.Method.Context
import Stencil.Token.Printer

namespace Stencil

/-!
# Methods

A method computes the value of a token from its context and its arguments.
Methods are registered by namespace and name.  A token whose function is not
registered is read as a field of its object.
-/

/-- How a method computes the value of a token. -/
abbrev MethodHandler := Context → List Text → Except EvalError Text

/-- Why a method is not registered. -/
inductive MethodError where
  /-- The name is taken. -/
  | duplicate (scope : Namespace) (name : Text)
  /-- No token can have the name. -/
  | unreachable (scope : Namespace) (name : Text)
  deriving DecidableEq, Repr

structure MethodRegistry.Entry where
  scope : Namespace
  name : Text
  handler : MethodHandler

structure MethodRegistry where
  entries : List MethodRegistry.Entry

namespace MethodRegistry

def empty : MethodRegistry := ⟨[]⟩

def size (methods : MethodRegistry) : Nat := methods.entries.length

/-- The handler of a name, if there is one. -/
def resolve (methods : MethodRegistry) (scope : Namespace) (name : Text) :
    Option MethodHandler :=
  (methods.entries.find? fun entry => entry.scope = scope && entry.name = name).map (·.handler)

/-- Whether a name is taken. -/
def contains (methods : MethodRegistry) (scope : Namespace) (name : Text) : Bool :=
  (methods.resolve scope name).isSome

/-- Registers a method under a name that a token can have and no other method has. -/
def register (methods : MethodRegistry) (scope : Namespace) (name : Text)
    (handler : MethodHandler) : Except MethodError MethodRegistry :=
  if !Token.isFunctionName name then .error (.unreachable scope name)
  else if methods.contains scope name then .error (.duplicate scope name)
  else .ok ⟨methods.entries ++ [⟨scope, name, handler⟩]⟩

/-- Registers a method for components and then for attributes.  If the name is taken only
for attributes, the method stays registered for components. -/
def registerBoth (methods : MethodRegistry) (name : Text) (handler : MethodHandler) :
    MethodRegistry × Except MethodError Unit :=
  match methods.register .comp name handler with
  | .error cause => (methods, .error cause)
  | .ok withComponent =>
      match withComponent.register .attr name handler with
      | .error cause => (withComponent, .error cause)
      | .ok withBoth => (withBoth, .ok ())

/-- The names of the methods with their namespaces, sorted. -/
def listing (methods : MethodRegistry) : List Text :=
  (methods.entries.map fun entry => entry.scope.word ++ Token.separator ++ entry.name).mergeSort
    fun a b => !Text.precedes b a

/-- The text of a value that stands for a token: a string as it is, other values printed. -/
def fieldText : Json → Text
  | .string s => s
  | value => value.print

/-- The value of a token that is read as a field. -/
def lookup (token : Token) (context : Context) : Except EvalError Text :=
  if !token.args.isEmpty then .error (.badUse token.print .fieldWithArguments)
  else
    match context.field? token.function with
    | some value => .ok (fieldText value)
    | none => .error (.unknownField token.scope token.function)

/-- The value of a token in the context of its object. -/
def apply (methods : MethodRegistry) (token : Token) (context : Context) :
    Except EvalError Text :=
  match methods.resolve token.scope token.function with
  | some handler => handler context token.args
  | none => lookup token context

/-- The value of a token.  Tokens of the component do not see the active attribute, and
tokens of the attribute need one. -/
def invoke (methods : MethodRegistry) (token : Token) (context : Context) :
    Except EvalError Text :=
  match token.scope, context.attr? with
  | .comp, _ => methods.apply token context.withoutAttribute
  | .attr, some _ => methods.apply token context
  | .attr, none => .error (.badUse token.print .tokenWithoutAttribute)

end MethodRegistry
end Stencil
