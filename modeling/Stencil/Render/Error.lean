import Stencil.Json.Value
import Stencil.Pattern.Dispatcher

namespace Stencil

/-!
# Why a value is not rendered

A value is not rendered because its type is unknown, because it does not have
the form that the type expects, or because no alternative of a variant takes it.
-/

/-- What a type expects of its values. -/
inductive Expectation where
  | integer
  | nonNegativeInteger
  | inRange (least greatest : Int)
  | number
  | truthValue
  | singleCharacter
  | string
  | list
  | typeParameters (expected found : Nat)
  | decimalSize (size : Text)
  | elements (expected found : Nat)
  | twoElements
  | keyAndValue
  | objectOrPairs
  | onlyNull
  | sourceText
  /-- An expectation of a type outside the built-in ones. -/
  | other (reason : Text)
  deriving DecidableEq, Repr

/-- Why a value is not rendered as a type. -/
inductive RenderError where
  | lookup (cause : LookupError)
  | mismatch (type : Text) (value : Json) (expectation : Expectation)
  | noAlternative (type : Text) (value : Json) (attempts : List RenderError)
  /-- Handlers went on asking for further renderings without an end. -/
  | tooDeep (type : Text)
  deriving Repr

end Stencil
