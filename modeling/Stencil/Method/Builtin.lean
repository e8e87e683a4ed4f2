import Stencil.Method.Registry
import Stencil.Text.Integer

namespace Stencil
namespace Method

/-!
# The built-in methods

Names, types and default values of the active object, texts that depend on its
position among the objects seen, and lists of the attributes of a component.
-/

/-- Insists on a number of arguments. -/
def expect (function : Text) (args : List Text) (count : Nat) : Except EvalError Unit :=
  if args.length = count then .ok ()
  else .error (.badUse function (.count count args.length))

def name : MethodHandler := fun context args => do
  expect "name" args 0
  return context.name

/-- The display name of the active object. -/
def displayName : MethodHandler := fun context args => do
  expect "display_name" args 0
  return context.displayName

def type : MethodHandler := fun context args => do
  expect "type" args 0
  return (← context.requireAttribute "type").typeName

/-- The default value of the active attribute, rendered as its type. -/
def defaultValue : MethodHandler := fun context args => do
  expect "default" args 0
  let a ← context.requireAttribute "default"
  context.render a.typeName a.default

/-- The second argument if the active object is at the position of the first argument, and
the third otherwise. -/
def ifNthElse : MethodHandler := fun context args =>
  match args with
  | [index, yes, no] =>
      match Text.int64? index with
      | some n => .ok (if context.isNth n then yes else no)
      | none => .error (.badUse "if_nth_else" (.noIndex index))
  | args => .error (.badUse "if_nth_else" (.indexAndTexts args.length))

/-- The argument of `function` if the active object is at a position, or not at it when
`expected` is false; otherwise nothing. -/
def ifAt (function : Text) (n : Int) (expected : Bool) : MethodHandler := fun context args =>
  match args with
  | [text] => .ok (if context.isNth n = expected then text else [])
  | args => .error (.badUse function (.oneText args.length))

/-- The number of attributes seen of the component. -/
def attributeCount : MethodHandler := fun context args => do
  expect "attr_count" args 0
  return Text.ofNat context.component.attributes.length

/-- A field of an attribute, where the default value is rendered as the type. -/
def attributeField (context : Context) (field : Text) (a : ViewAttribute) :
    Except EvalError Text :=
  if field = "default" then context.render a.typeName a.default
  else
    match a.field? field with
    | some value => .ok (MethodRegistry.fieldText value)
    | none => .error (.unknownField .attr field)

/-- The values of a field of the attributes, joined by a separator.  If there is a format,
every `{}` of it is replaced by the value. -/
def attributeTexts (context : Context) (field : Text) (format : Option Text) :
    List ViewAttribute → Except EvalError (List Text)
  | [] => .ok []
  | a :: rest => do
      let value ← attributeField context field a
      let text :=
        match format with
        | some format => Text.replace "\x7b\x7d" value format
        | none => value
      return text :: (← attributeTexts context field format rest)

/-- A list of a field of all attributes seen of the component. -/
def attributeList : MethodHandler := fun context args => do
  let attributes := context.component.attributes
  match args with
  | [field, separator] =>
      return Text.joined separator (← attributeTexts context field none attributes)
  | [field, separator, format] =>
      return Text.joined separator (← attributeTexts context field (some format) attributes)
  | args => throw (.badUse "attr_list" (.fieldSeparatorFormat args.length))

end Method

/-- The objects for which a method is registered. -/
inductive Reach where
  | one (scope : Namespace)
  | both
  deriving DecidableEq, Repr

namespace MethodRegistry

/-- A method to be registered. -/
structure Addition where
  reach : Reach
  name : Text
  handler : MethodHandler

def add (methods : MethodRegistry) (addition : Addition) : Except MethodError MethodRegistry :=
  match addition.reach with
  | .one scope => methods.register scope addition.name addition.handler
  | .both =>
      match methods.registerBoth addition.name addition.handler with
      | (methods, .ok ()) => .ok methods
      | (_, .error cause) => .error cause

/-- Registers methods one after the other; the first that is refused is the error. -/
def addAll (methods : MethodRegistry) (additions : List Addition) :
    Except MethodError MethodRegistry :=
  additions.foldlM add methods

/-- The built-in methods, in the order of registration. -/
def builtinMethods : List Addition :=
  [⟨.both, "name", Method.name⟩,
   ⟨.both, "display_name", Method.displayName⟩,
   ⟨.one .attr, "type", Method.type⟩,
   ⟨.one .attr, "default", Method.defaultValue⟩,
   ⟨.both, "if_nth_else", Method.ifNthElse⟩,
   ⟨.both, "if_first", Method.ifAt "if_first" 0 true⟩,
   ⟨.both, "if_not_first", Method.ifAt "if_not_first" 0 false⟩,
   ⟨.both, "if_last", Method.ifAt "if_last" (-1) true⟩,
   ⟨.both, "if_not_last", Method.ifAt "if_not_last" (-1) false⟩,
   ⟨.one .comp, "attr_count", Method.attributeCount⟩,
   ⟨.one .comp, "attr_list", Method.attributeList⟩]

/-- The registry of the built-in methods alone. -/
def builtin : MethodRegistry :=
  match empty.addAll builtinMethods with
  | .ok methods => methods
  | .error _ => empty

end MethodRegistry
end Stencil
