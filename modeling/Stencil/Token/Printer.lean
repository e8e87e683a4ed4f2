import Stencil.Token.Basic

namespace Stencil
namespace Token

/-!
# Writing a token

The written form of a token has one literal for each argument, in double
quotes, and no parentheses if there are no arguments.
-/

/-- A character inside a literal in double quotes. -/
def escaped (c : Char) : Text :=
  if c = '\\' then "\\\\"
  else if c = '"' then "\\\""
  else if c = '\n' then "\\n"
  else if c = '\t' then "\\t"
  else [c]

/-- An argument as a literal in double quotes. -/
def literal (arg : Text) : Text := '"' :: arg.flatMap escaped ++ "\""

/-- The arguments of a token between parentheses. -/
def printArgs : List Text → Text
  | [] => []
  | args => "(" ++ Text.joined ", " (args.map literal) ++ ")"

/-- The text between the braces of a token. -/
def printInner (token : Token) : Text :=
  token.scope.word ++ separator ++ token.function ++ printArgs token.args

def print (token : Token) : Text := opening ++ token.printInner ++ closing

end Token
end Stencil
