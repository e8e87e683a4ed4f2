import Stencil.Decimal.Double

namespace Stencil

/-!
# JSON values

The values of JSON documents.  A number written as an integer that fits 64 bits
is an integer, every other number a double, and the two kinds are never equal.
An object keeps its fields in the order in which their names first appeared;
equality of objects does not look at the order.
-/

inductive Json.Number where
  | integer (n : Int)
  | double (d : Double)
  deriving DecidableEq, Repr

inductive Json where
  | null
  | bool (b : Bool)
  | number (n : Json.Number)
  | string (s : Text)
  | array (items : List Json)
  | object (fields : List (Text × Json))
  deriving Repr

/-- A list of named values in which each name occurs once, in order of appearance. -/
abbrev Fields (α : Type) := List (Text × α)

namespace Fields

variable {α : Type}

def get? (name : Text) : Fields α → Option α
  | [] => none
  | (key, value) :: rest => if key = name then some value else get? name rest

def contains (name : Text) (fields : Fields α) : Bool := (get? name fields).isSome

/-- Gives a name a value: in its place if it has one already, and at the end otherwise. -/
def insert (name : Text) (value : α) : Fields α → Fields α
  | [] => [(name, value)]
  | (key, old) :: rest =>
      if key = name then (key, value) :: rest else (key, old) :: insert name value rest

def names (fields : Fields α) : List Text := fields.map (·.1)

@[simp]
theorem names_cons (field : Text × α) (rest : Fields α) :
    names (field :: rest) = field.1 :: names rest := rfl

theorem names_append (fields others : Fields α) :
    names (fields ++ others) = names fields ++ names others :=
  List.map_append

theorem contains_iff_mem_names {name : Text} {fields : Fields α} :
    contains name fields = true ↔ name ∈ names fields := by
  induction fields with
  | nil => simp [contains, get?, names]
  | cons field rest ih =>
      rw [names_cons, List.mem_cons, ← ih]
      unfold contains
      rw [get?]
      by_cases h : field.1 = name
      · simp [h]
      · simp [h, Ne.symm h]

@[simp]
theorem get?_insert_self (name : Text) (value : α) (fields : Fields α) :
    get? name (insert name value fields) = some value := by
  induction fields with
  | nil => simp [insert, get?]
  | cons field rest ih =>
      by_cases h : field.1 = name
      · simp [insert, get?, h]
      · simp [insert, get?, h, ih]

theorem get?_insert_of_ne {name other : Text} (h : other ≠ name) (value : α)
    (fields : Fields α) : get? other (insert name value fields) = get? other fields := by
  induction fields with
  | nil => simp [insert, get?, h.symm]
  | cons field rest ih =>
      by_cases hname : field.1 = name
      · have hother : field.1 ≠ other := fun hc => h (hc ▸ hname)
        simp [insert, get?, hname, h.symm]
      · by_cases hother : field.1 = other
        · subst hother
          simp [insert, get?, hname]
        · simp [insert, get?, hname, hother, ih]

end Fields

namespace Json

/-- Whether two numbers are of one kind and equal. -/
def Number.same : Number → Number → Bool
  | .integer m, .integer n => m == n
  | .double a, .double b => a.sameNumber b
  | _, _ => false

mutual

/-- Whether two values are equal, whatever the order of the fields of objects. -/
def same : Json → Json → Bool
  | .null, .null => true
  | .bool a, .bool b => a == b
  | .number a, .number b => a.same b
  | .string a, .string b => a == b
  | .array a, .array b => sameItems a b
  | .object a, .object b => a.length == b.length && sameFields a b
  | _, _ => false

/-- Whether two lists of values are equal item by item. -/
def sameItems : List Json → List Json → Bool
  | [], [] => true
  | a :: as, b :: bs => same a b && sameItems as bs
  | _, _ => false

/-- Whether every field is a field of the other list, with an equal value. -/
def sameFields : List (Text × Json) → List (Text × Json) → Bool
  | [], _ => true
  | (name, value) :: rest, others =>
      (match Fields.get? name others with
      | some other => same value other
      | none => false) && sameFields rest others

end

/-- The field of an object; other values have none. -/
def field? (name : Text) : Json → Option Json
  | .object fields => Fields.get? name fields
  | _ => none

end Json
end Stencil
