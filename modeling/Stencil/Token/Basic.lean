import Stencil.Text.Blank
import Stencil.Text.Search

namespace Stencil

/-!
# Tokens

A token names a function of the current component or of the current attribute,
with arguments.  Its written form is

    token     = "{{" namespace "::" function [ "(" [ argument { "," argument } ] ")" ] "}}"
    namespace = "Comp" | "Attr"
    function  = identifier { "." identifier }
    argument  = literal { literal }
    literal   = '"' ... '"' | "'" ... "'"

Adjacent literals make up one argument.
-/

/-- The object that a token is about. -/
inductive Namespace where
  /-- The current component. -/
  | comp
  /-- The current attribute of the current component. -/
  | attr
  deriving DecidableEq, Repr

namespace Namespace

/-- The written form of a namespace. -/
def word : Namespace → Text
  | comp => "Comp"
  | attr => "Attr"

/-- The namespace that a word stands for. -/
def ofWord? (t : Text) : Option Namespace :=
  if t = word comp then some comp
  else if t = word attr then some attr
  else none

@[simp]
theorem ofWord?_word (n : Namespace) : ofWord? n.word = some n := by
  cases n <;> decide

end Namespace

/-- A function of an object, with its arguments. -/
structure Token where
  scope : Namespace
  function : Text
  args : List Text
  deriving DecidableEq, Repr

/-- What is wrong with a token. -/
inductive TokenFlaw where
  | noSeparator
  | noFunction
  | badFunction (name : Text)
  | unclosedArguments
  | trailingComma
  | emptyArgument
  | unquotedArgument (rest : Text)
  | unterminatedString (rest : Text)
  | noCommaOrParenthesis (rest : Text)
  | afterArguments (rest : Text)
  | unclosedToken
  deriving DecidableEq, Repr

/-- Why a text is no token. -/
inductive TokenError where
  | invalid (raw : Text) (flaw : TokenFlaw)
  | unknownNamespace (word raw : Text)
  deriving DecidableEq, Repr

namespace Token

/-- What stands before a token. -/
def opening : Text := "\x7b\x7b"

/-- What stands after a token. -/
def closing : Text := "\x7d\x7d"

/-- What stands between the namespace and the function. -/
def separator : Text := "::"

/-- Whether a character can begin an identifier.  Identifiers are ASCII. -/
def isIdentifierStart (c : Char) : Bool := c.isAlpha || c = '_'

/-- Whether a character can stand in an identifier. -/
def isIdentifierChar (c : Char) : Bool := c.isAlphanum || c = '_'

def isIdentifier : Text → Bool
  | [] => false
  | c :: rest => isIdentifierStart c && rest.all isIdentifierChar

/-- Whether a text is a function name: identifiers joined by points. -/
def isFunctionName (name : Text) : Bool := (name.splitOnP (· = '.')).all isIdentifier

def isQuote (c : Char) : Bool := c = '"' || c = '\''

end Token
end Stencil
