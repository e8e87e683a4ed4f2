import Stencil.TypeName

namespace Stencil

/-!
# Type patterns

A pattern without placeholder stands for one type name.  With the placeholder
`{}` it stands for the names of its shape and captures one type, and with
`{}...` it captures a list of types.  At most one placeholder is allowed.
-/

/-- How a pattern matches type names. -/
inductive PatternKind where
  /-- One type name. -/
  | exact
  /-- One captured type. -/
  | single
  /-- A captured list of types. -/
  | list
  deriving DecidableEq, Repr

inductive PatternFlaw where
  | empty
  | severalPlaceholders
  | mixedPlaceholders
  deriving DecidableEq, Repr

inductive PatternError where
  | invalid (pattern : Text) (flaw : PatternFlaw)
  | duplicate (pattern : Text)
  deriving DecidableEq, Repr

namespace Pattern

/-- The placeholder of one captured type. -/
def placeholder : Text := "\x7b\x7d"

/-- The placeholder of a captured list of types. -/
def listPlaceholder : Text := "\x7b\x7d..."

/-- The kind of a pattern, unless its placeholders are more than one. -/
def kindOf (pattern : Text) : Except PatternError PatternKind :=
  match Text.count placeholder pattern, Text.count listPlaceholder pattern with
  | 0, _ => .ok .exact
  | 1, 0 => .ok .single
  | 1, 1 => .ok .list
  | _, 0 => .error (.invalid pattern .severalPlaceholders)
  | _, _ => .error (.invalid pattern .mixedPlaceholders)

/-- The text by which a pattern is told from others: two patterns that differ only in the
kind of their placeholder are the same. -/
def key (pattern : Text) : Text := Text.replace listPlaceholder placeholder pattern

/-- The fixed texts around a placeholder. -/
structure Shape where
  start : Text
  ending : Text
  deriving DecidableEq, Repr

/-- The shape of a pattern with this placeholder. -/
def Shape.around (mark pattern : Text) : Shape :=
  match Text.splitOnce? mark pattern with
  | some (start, ending) => ⟨start, ending⟩
  | none => ⟨pattern, []⟩

/-- The trimmed text between the fixed texts, if the name has the shape. -/
def Shape.capture? (shape : Shape) (name : Text) : Option Text :=
  ((Text.after? shape.start name).bind (Text.before? shape.ending)).map Text.trim

/-- What a pattern matches. -/
inductive Form where
  | exact (name : Text)
  | single (shape : Shape)
  | list (shape : Shape)
  deriving DecidableEq, Repr

/-- The form of a pattern of a kind. -/
def Form.ofPattern (pattern : Text) : PatternKind → Form
  | .exact => .exact pattern
  | .single => .single (Shape.around placeholder pattern)
  | .list => .list (Shape.around listPlaceholder pattern)

def Form.kind : Form → PatternKind
  | .exact _ => .exact
  | .single _ => .single
  | .list _ => .list

end Pattern
end Stencil
