import Stencil.Render.Registry
import Stencil.Token.Basic
import Stencil.View

namespace Stencil

/-!
# What a token is evaluated in

A token is evaluated for a component of a view, and for an attribute of it if
one is active.  Positions count the active object among the objects that the
same block sees.
-/

/-- What is wrong with the use of a method. -/
inductive ArgumentFlaw where
  /-- A method of attributes is used without one. -/
  | noActiveAttribute
  /-- A token of an attribute is used without one. -/
  | tokenWithoutAttribute
  /-- A field has no arguments. -/
  | fieldWithArguments
  | count (expected found : Nat)
  | oneText (found : Nat)
  | indexAndTexts (found : Nat)
  | noIndex (text : Text)
  | fieldSeparatorFormat (found : Nat)
  /-- A flaw of a method outside the built-in ones. -/
  | other (reason : Text)
  deriving DecidableEq, Repr

/-- Why a token has no value. -/
inductive EvalError where
  | unknownField (scope : Namespace) (field : Text)
  | badUse (function : Text) (flaw : ArgumentFlaw)
  | render (cause : RenderError)
  deriving Repr

/-- What a method can look at. -/
structure Context where
  types : TypeRegistry
  view : View
  component : ViewComponent
  attr? : Option ViewAttribute := none

namespace Context

/-- The context of an attribute of the component. -/
def withAttribute (context : Context) (a : ViewAttribute) : Context :=
  { context with attr? := some a }

/-- The context of the component alone. -/
def withoutAttribute (context : Context) : Context := { context with attr? := none }

/-- The namespace of the active object. -/
def scope (context : Context) : Namespace :=
  match context.attr? with
  | some _ => .attr
  | none => .comp

/-- The active attribute, which `function` cannot do without. -/
def requireAttribute (context : Context) (function : Text) : Except EvalError ViewAttribute :=
  match context.attr? with
  | some a => .ok a
  | none => .error (.badUse function .noActiveAttribute)

def field? (context : Context) (field : Text) : Option Json :=
  match context.attr? with
  | some a => a.field? field
  | none => context.component.field? field

def name (context : Context) : Text :=
  match context.attr? with
  | some a => a.name
  | none => context.component.name

/-- The display name of the active object. -/
def displayName (context : Context) : Text :=
  match context.attr? with
  | some a => a.displayName
  | none => context.component.displayName

def render (context : Context) (type : Text) (value : Json) : Except EvalError Text :=
  (context.types.render type value).mapError .render

/-- The index that a position stands for in a list of some length, where negative positions
count from the end. -/
def indexAt (length : Nat) (n : Int) : Int := if n < 0 then length + n else n

/-- Whether `item` equals the item at a position of a list. -/
def atPosition {α : Type} (same : α → α → Bool) (items : List α) (item : α) (n : Int) : Bool :=
  let index := indexAt items.length n
  if index < 0 then false
  else
    match items[index.toNat]? with
    | some other => same other item
    | none => false

/-- Whether the active object is at a position among the objects seen. -/
def isNth (context : Context) (n : Int) : Bool :=
  match context.attr? with
  | some a => atPosition ViewAttribute.same context.component.attributes a n
  | none => atPosition ViewComponent.same context.view.components context.component n

end Context
end Stencil
