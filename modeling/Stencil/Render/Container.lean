import Stencil.Json.Reader
import Stencil.Render.Plan

namespace Stencil
namespace Container

/-!
# Containers

The handlers of the types that are made of other types.  They check the number
of the captured types and the form of the value, ask for the parts to be
rendered, and put the answers between braces.
-/

/-- The first captured type. -/
def first (args : List Text) : Text := args.headD []

/-- Ends a rendering because the value does not have the expected form. -/
def mismatch {α : Type} (type : Text) (value : Json) (expectation : Expectation) : Rendering α :=
  throw (.mismatch type value expectation)

def items (type : Text) (value : Json) : Rendering (List Json) :=
  match value with
  | .array items => pure items
  | _ => mismatch type value .list

/-- Insists on a number of captured types. -/
def parameters (type : Text) (args : List Text) (expected : Nat) (value : Json) :
    Rendering Unit :=
  if args.length = expected then pure ()
  else mismatch type value (.typeParameters expected args.length)

/-- The rendered parts of a container between the braces of its type. -/
def braced (type : Text) (parts : List Text) : Text :=
  TypeName.canonical type ++ "\x7b" ++ Text.joined ", " parts ++ "\x7d"

/-- A list of values of one type. -/
def sequence : TypeHandler := fun type args value => do
  let items ← items type value
  let parts ← Rendering.askEach (items.map (first args, ·))
  return braced type parts

/-- The number that the size of an array denotes: decimal digits, below `2 ^ 64`. -/
def size? (text : Text) : Option Nat :=
  let n := Text.digitsToNat text
  if !text.isEmpty && text.all Char.isDigit && n < Nat.pow 2 64 then some n else none

/-- A list of as many values as the type says. -/
def array : TypeHandler := fun type args value => do
  parameters type args 2 value
  match args with
  | [item, size] =>
      match size? size with
      | none => mismatch type value (.decimalSize size)
      | some size =>
          let items ← items type value
          if items.length ≠ size then mismatch type value (.elements size items.length)
          else
            let parts ← Rendering.askEach (items.map (item, ·))
            return braced type parts
  | _ => mismatch type value (.typeParameters 2 args.length)

/-- Two values, each of its own type. -/
def pair : TypeHandler := fun type args value => do
  parameters type args 2 value
  let items ← items type value
  if items.length ≠ 2 then mismatch type value .twoElements
  else
    let parts ← Rendering.askEach (args.zip items)
    return braced type parts

/-- One value of each type. -/
def tuple : TypeHandler := fun type args value => do
  let items ← items type value
  if items.length ≠ args.length then
    mismatch type value (.elements args.length items.length)
  else
    let parts ← Rendering.askEach (args.zip items)
    return braced type parts

/-- A name of an object as a key: the string itself or, if that is not rendered, the value
of the JSON document that it holds. -/
def key (keyType : Text) (name : Text) : Rendering Text :=
  Plan.ask keyType (.string name) fun
    | .ok text => Plan.done (.ok text)
    | .error cause =>
        -- Names are all that an object has for keys, so a number is written as a name.
        match Json.parse? name with
        | some value => Rendering.ask keyType value
        | none => Plan.done (.error cause)

def entry (key value : Text) : Text := "\x7b" ++ key ++ ", " ++ value ++ "\x7d"

/-- The entries of a map that is given as an object. -/
def entriesOfFields (keyType valueType : Text) : List (Text × Json) → Rendering (List Text)
  | [] => pure []
  | (name, value) :: rest => do
      let key ← key keyType name
      let value ← Rendering.ask valueType value
      let entries ← entriesOfFields keyType valueType rest
      return entry key value :: entries

/-- The entries of a map that is given as a list of pairs. -/
def entriesOfPairs (type keyType valueType : Text) : List Json → Rendering (List Text)
  | [] => pure []
  | .array [key, value] :: rest => do
      let key ← Rendering.ask keyType key
      let value ← Rendering.ask valueType value
      let entries ← entriesOfPairs type keyType valueType rest
      return entry key value :: entries
  | item :: _ => mismatch type item .keyAndValue

/-- Keys and values, in the order in which they are given. -/
def map : TypeHandler := fun type args value => do
  parameters type args 2 value
  match args, value with
  | [keyType, valueType], .object fields =>
      return braced type (← entriesOfFields keyType valueType fields)
  | [keyType, valueType], .array pairs =>
      return braced type (← entriesOfPairs type keyType valueType pairs)
  | _, _ => mismatch type value .objectOrPairs

/-- The value as the first type that takes it, when `attempts` are the errors of the types
before. -/
def firstOf (type : Text) (value : Json) : List RenderError → List Text → Rendering Text
  | attempts, [] => throw (.noAlternative (TypeName.canonical type) value attempts)
  | attempts, alternative :: rest =>
      Plan.ask alternative value fun
        | .ok text => Plan.done (.ok text)
        | .error cause => firstOf type value (attempts ++ [cause]) rest

/-- A value of the first of several types that takes it. -/
def variant : TypeHandler := fun type args value => firstOf type value [] args

/-- Nothing, or a value. -/
def optional : TypeHandler := fun type args value =>
  match value with
  | .null => pure "std::nullopt"
  | value => do
      let part ← Rendering.ask (first args) value
      return braced type [part]

/-- A null pointer, or a pointer to a new value that `factory` makes. -/
def pointer (factory : Text) : TypeHandler := fun _ args value =>
  match value with
  | .null => pure "nullptr"
  | value => do
      let part ← Rendering.ask (first args) value
      return factory ++ "<" ++ TypeName.canonical (first args) ++ ">(" ++ part ++ ")"

end Container
end Stencil
