import Stencil.Json.Reader

namespace Stencil
namespace Json
namespace Reader

/-!
# Reading typed values

Readers of strings, truth values, lists, maps and records.  A record is written
as an object, whose fields must be known and come once, or as an array of its
fields in the order of their declaration, from which the last ones may be
missing.

A value of a wrong type is read before it is reported, unless it is an array or
an object.  An unknown, repeated or missing field is reported after the white
space that follows, and after the closing bracket if that comes next.
-/

variable {α β σ : Type}

/-- Reports a value that is not of the expected type. -/
def wrongType : Reader α := do
  match ← peek? with
  | some 'n' => do skip; letters "ull"; failHere .unexpected
  | some 't' => do skip; letters "rue"; failHere .unexpected
  | some 'f' => do skip; letters "alse"; failHere .unexpected
  | some '"' => do
      let _ ← string
      failHere .unexpected
  | some '[' => failHere .unexpected
  | some '\x7b' => failHere .unexpected
  | some c =>
      if c = '-' || c.isDigit then
        let _ ← number
        failHere .unexpected
      else failNext .malformed
  | none => failNext .unfinished

def text : Reader Text := do
  skipSpace
  match ← peek? with
  | some '"' => string
  | _ => wrongType

def truth : Reader Bool := do
  skipSpace
  match ← peek? with
  | some 't' => do skip; letters "rue"; return true
  | some 'f' => do skip; letters "alse"; return false
  | _ => wrongType

def listOf (item : Reader α) : Reader (List α) := do
  skipSpace
  match ← peek? with
  | some '[' => arrayOf item
  | _ => wrongType

def mapOf (item : Reader α) : Reader (Fields α) := do
  skipSpace
  match ← peek? with
  | some '\x7b' => objectOf item
  | _ => wrongType

/-- A field of a record that is being read into a draft. -/
structure RecordField (σ : Type) where
  name : Text
  isSet : σ → Bool
  read : σ → Reader σ

/-- Reports a field of an object. -/
def abandonObject : Reader α := do
  skipSpace
  match ← peek? with
  | some '\x7d' => do skip; failHere .unexpected
  | _ => failHere .unexpected

/-- Reports that an array has too few items. -/
def abandonArray : Reader α := do
  skipSpace
  match ← peek? with
  | some ']' => do skip; failHere .unexpected
  | _ => failHere .unexpected

/-- Reads the fields of a record that is written as an object. -/
def recordFields (fields : List (RecordField σ)) : Nat → Bool → σ → Reader σ
  | 0, _, _ => failHere .malformed
  | rounds + 1, first, draft => do
      if ← nextField first then
        let name ← string
        match fields.find? (·.name = name) with
        | none => abandonObject
        | some field =>
            if field.isSet draft then abandonObject
            else
              colon
              let draft ← field.read draft
              recordFields fields rounds false draft
      else return draft

/-- Reads the fields of a record that is written as an array. -/
def recordItems : List (RecordField σ) → Bool → σ → Reader σ
  | [], _, draft => pure draft
  | field :: rest, first, draft => do
      if ← nextItem first then
        let draft ← field.read draft
        recordItems rest false draft
      else recordItems rest first draft

/-- Reads a record; `finish` gives nothing if a field is missing. -/
def record (fields : List (RecordField σ)) (draft : σ) (finish : σ → Option β) : Reader β := do
  skipSpace
  match ← peek? with
  | some '\x7b' => do
      skip
      let draft ← recordFields fields ((← get).length + 1) true draft
      match finish draft with
      | none => abandonObject
      | some result => do closeObject; return result
  | some '[' => do
      skip
      let draft ← recordItems fields true draft
      match finish draft with
      | none => abandonArray
      | some result => do closeArray; return result
  | _ => wrongType

end Reader
end Json
end Stencil
