import Stencil.Pattern.Basic

namespace Stencil

/-!
# Dispatch on type names

A dispatcher is the list of the registered patterns with their handlers, in the
order of registration.  A type name goes to its exact pattern; otherwise to the
first pattern with one placeholder that captures a non-empty balanced type;
otherwise to the first pattern with a list placeholder whose shape it has.
-/

structure Dispatcher.Entry (H : Type) where
  key : Text
  form : Pattern.Form
  handler : H

/-- The registered patterns, in the order of registration. -/
structure Dispatcher (H : Type) where
  entries : List (Dispatcher.Entry H)

/-- Why no handler is found for a type name. -/
inductive LookupError where
  | malformedList (list : Text)
  | unknownType (name : Text)
  deriving DecidableEq, Repr

namespace Dispatcher

variable {H : Type}

/-- A handler that was found, with the types that its pattern captured. -/
structure Found (H : Type) where
  handler : H
  kind : PatternKind
  args : List Text

def empty : Dispatcher H := ⟨[]⟩

def size (d : Dispatcher H) : Nat := d.entries.length

/-- Whether a pattern with this key is registered. -/
def hasKey (d : Dispatcher H) (key : Text) : Bool := d.entries.any (·.key = key)

/-- Whether a pattern, or one that differs in the kind of its placeholder, is registered. -/
def isRegistered (d : Dispatcher H) (pattern : Text) : Bool :=
  d.hasKey (Pattern.key pattern.trim)

/-- The entry of a pattern, unless the pattern is malformed. -/
def entry? (pattern : Text) (handler : H) : Except PatternError (Entry H) :=
  let pattern := pattern.trim
  if pattern.isEmpty then .error (.invalid pattern .empty)
  else (Pattern.kindOf pattern).map fun kind =>
    ⟨Pattern.key pattern, .ofPattern pattern kind, handler⟩

/-- Registers a pattern, which must be well formed and new. -/
def register (d : Dispatcher H) (pattern : Text) (handler : H) :
    Except PatternError (Dispatcher H) := do
  let entry ← entry? pattern handler
  if d.hasKey entry.key then .error (.duplicate pattern.trim)
  else .ok ⟨d.entries ++ [entry]⟩

/-- Registers patterns one after the other; the first that is refused is the error. -/
def registerAll (d : Dispatcher H) (patterns : List (Text × H)) :
    Except PatternError (Dispatcher H) :=
  patterns.foldlM (fun d (pattern, handler) => d.register pattern handler) d

/-- The type list between the fixed texts of a list pattern. -/
def captureList (list : Text) : Except LookupError (List Text) :=
  match TypeName.splitList? list with
  | some names => .ok names
  | none => .error (.malformedList list)

def Entry.matchExact (name : Text) (entry : Entry H) : Option (Found H) :=
  match entry.form with
  | .exact pattern => if pattern = name then some ⟨entry.handler, .exact, []⟩ else none
  | _ => none

/-- The handler of a pattern with one placeholder. -/
def Entry.matchSingle (name : Text) (entry : Entry H) : Option (Found H) :=
  match entry.form with
  | .single shape =>
      match shape.capture? name with
      | some inner =>
          if !inner.isEmpty && inner.isBalanced then some ⟨entry.handler, .single, [inner]⟩
          else none
      | none => none
  | _ => none

/-- The handler of a pattern with a list placeholder. -/
def Entry.matchList (name : Text) (entry : Entry H) : Option (Except LookupError (Found H)) :=
  match entry.form with
  | .list shape =>
      (shape.capture? name).map fun list =>
        (captureList list).map fun args => ⟨entry.handler, .list, args⟩
  | _ => none

/-- The handler of a type name. -/
def resolve (d : Dispatcher H) (name : Text) : Except LookupError (Found H) :=
  let name := name.trim
  match d.entries.findSome? (Entry.matchExact name) with
  | some found => .ok found
  | none =>
      match d.entries.findSome? (Entry.matchSingle name) with
      | some found => .ok found
      | none =>
          -- A list pattern that has the shape of the name is final, even if its list is malformed.
          match d.entries.findSome? (Entry.matchList name) with
          | some result => result
          | none => .error (.unknownType name)

end Dispatcher
end Stencil
