import Stencil.Text.Basic

namespace Stencil

/-!
# Brackets

Four kinds of brackets nest in type names.  Reading a text from the left keeps
the stack of the brackets that are open; a text is balanced when every closing
bracket closes the innermost open one of its kind and none stays open.
-/

/-- The kinds of brackets. -/
inductive Bracket where
  | round
  | square
  | angle
  | curly
  deriving DecidableEq, Repr

namespace Bracket

/-- The bracket that a character opens. -/
def opened? : Char → Option Bracket
  | '(' => some round
  | '[' => some square
  | '<' => some angle
  | '\x7b' => some curly
  | _ => none

/-- The bracket that a character closes. -/
def closed? : Char → Option Bracket
  | ')' => some round
  | ']' => some square
  | '>' => some angle
  | '\x7d' => some curly
  | _ => none

/-- The brackets open after a character, if it closes nothing but the
innermost one. -/
def step (stack : List Bracket) (c : Char) : Option (List Bracket) :=
  match opened? c with
  | some bracket => some (bracket :: stack)
  | none =>
      match closed? c with
      | none => some stack
      | some bracket =>
          match stack with
          | [] => none
          | top :: rest => if top = bracket then some rest else none

def run (stack : List Bracket) (t : Text) : Option (List Bracket) := t.foldlM step stack

end Bracket

/-- Whether all brackets of a text match. -/
def Text.isBalanced (t : Text) : Bool := Bracket.run [] t == some []

end Stencil
