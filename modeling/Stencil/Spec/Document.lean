import Stencil.Json.Record
import Stencil.Spec.Basic

namespace Stencil
namespace Spec
namespace Document

/-!
# Spec documents

A spec is written as a JSON document of records: a spec, its components and
their attributes.  Flags may be left out, and so may custom data, for which
`null` stands too; everything else has to be there, and nothing else may be.
-/

open Json.Reader

/-- Default and custom values stand inside five arrays and objects. -/
def valueDepth : Nat := greatestDepth - 5

/-- The fields of an attribute read so far. -/
structure AttributeDraft where
  name : Option Text := none
  displayName : Option Text := none
  typeName : Option Text := none
  default : Option Json := none
  flags : Option Flags := none
  custom : Option (Option Json) := none

/-- The attribute, once no field is missing. -/
def AttributeDraft.finish? (draft : AttributeDraft) : Option Attribute := do
  return {
    name := ← draft.name
    displayName := ← draft.displayName
    typeName := ← draft.typeName
    default := ← draft.default
    flags := draft.flags.getD []
    custom := draft.custom.getD none }

/-- Reads a value in which `null` stands for nothing. -/
def optionalValue : Json.Reader (Option Json) := do
  match ← value valueDepth with
  | .null => return none
  | v => return some v

/-- The fields of an attribute, in order of declaration. -/
def attributeFields : List (RecordField AttributeDraft) :=
  [⟨"name", (·.name.isSome), fun d => return { d with name := some (← text) }⟩,
   ⟨"display_name", (·.displayName.isSome),
     fun d => return { d with displayName := some (← text) }⟩,
   ⟨"type", (·.typeName.isSome), fun d => return { d with typeName := some (← text) }⟩,
   ⟨"default", (·.default.isSome),
     fun d => return { d with default := some (← value valueDepth) }⟩,
   ⟨"flags", (·.flags.isSome), fun d => return { d with flags := some (← mapOf truth) }⟩,
   ⟨"custom", (·.custom.isSome), fun d => return { d with custom := some (← optionalValue) }⟩]

def readAttribute : Json.Reader Attribute :=
  record attributeFields {} AttributeDraft.finish?

/-- The fields of a component read so far. -/
structure ComponentDraft where
  name : Option Text := none
  displayName : Option Text := none
  attributes : Option (List Attribute) := none
  flags : Option Flags := none

/-- The component, once no field is missing. -/
def ComponentDraft.finish? (draft : ComponentDraft) : Option Component := do
  return {
    name := ← draft.name
    displayName := ← draft.displayName
    attributes := ← draft.attributes
    flags := draft.flags.getD [] }

/-- The fields of a component, in order of declaration. -/
def componentFields : List (RecordField ComponentDraft) :=
  [⟨"name", (·.name.isSome), fun d => return { d with name := some (← text) }⟩,
   ⟨"display_name", (·.displayName.isSome),
     fun d => return { d with displayName := some (← text) }⟩,
   ⟨"attributes", (·.attributes.isSome),
     fun d => return { d with attributes := some (← listOf readAttribute) }⟩,
   ⟨"flags", (·.flags.isSome), fun d => return { d with flags := some (← mapOf truth) }⟩]

def readComponent : Json.Reader Component :=
  record componentFields {} ComponentDraft.finish?

/-- The fields of a spec read so far. -/
structure SpecDraft where
  flagDefaults : Option Flags := none
  components : Option (List Component) := none

/-- The spec, once no field is missing. -/
def SpecDraft.finish? (draft : SpecDraft) : Option Spec := do
  return { flagDefaults := draft.flagDefaults.getD [], components := ← draft.components }

/-- The fields of a spec, in order of declaration. -/
def specFields : List (RecordField SpecDraft) :=
  [⟨"flag_defaults", (·.flagDefaults.isSome),
     fun d => return { d with flagDefaults := some (← mapOf truth) }⟩,
   ⟨"components", (·.components.isSome),
     fun d => return { d with components := some (← listOf readComponent) }⟩]

/-- The spec that a document holds, with the flags as they are written. -/
def read (source : Text) : Except Json.ReadError Spec :=
  document (record specFields {} SpecDraft.finish?) source

end Document
end Spec
end Stencil
