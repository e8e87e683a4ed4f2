import Stencil.Json.Reader

namespace Stencil

/-!
# What is wrong with a spec
-/

/-- A part of a text, in bytes. -/
structure Span where
  offset : Nat
  length : Nat
  deriving DecidableEq, Repr

/-- Why a spec is refused, with the part of its document that shows it. -/
inductive SpecError where
  /-- The file cannot be read. -/
  | unreadable (path : Text)
  /-- The document is not that of a spec. -/
  | malformed (cause : Json.ReadError) (place : Option Nat)
  /-- A flag is not declared. -/
  | undeclaredFlag (flag owner : Text) (span : Option Span)
  /-- Two components have the same name. -/
  | duplicateComponent (name : Text) (span : Option Span)
  /-- Two attributes of a component have the same name. -/
  | duplicateAttribute (component name : Text) (span : Option Span)
  /-- A name is blank. -/
  | blankName (owner : Text)
  /-- A type is blank. -/
  | blankType (owner : Text) (span : Option Span)
  deriving DecidableEq, Repr

end Stencil
