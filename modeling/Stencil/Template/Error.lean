import Stencil.Method.Context
import Stencil.Token.Basic

namespace Stencil
namespace Template

/-!
# Why a template is not expanded
-/

/-- What is wrong with a marker. -/
inductive MarkerFlaw where
  | noAssignment (word : Text)
  | noFlag (word : Text)
  | noTruthValue (value : Text)
  | repeatedFlag (flag : Text)
  | endWithArguments
  deriving DecidableEq, Repr

/-- Why a line is not expanded. -/
inductive Cause where
  | token (cause : TokenError)
  | marker (line : Text) (flaw : MarkerFlaw)
  | nestedBlock
  | unterminatedBlock
  | unmatchedEnd
  | unknownFlag (flag : Text)
  | eval (cause : EvalError)
  deriving Repr

/-- Why a template is not expanded, and on which line: its number, its offset and the
length of its text. -/
structure Error where
  template : Text
  line : Nat
  offset : Nat
  length : Nat
  cause : Cause
  deriving Repr

end Template
end Stencil
