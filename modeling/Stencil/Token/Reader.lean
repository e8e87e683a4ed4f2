import Stencil.Token.Basic

namespace Stencil
namespace Token

/-!
# Reading a token

Tokens are read from the left, and the first deviation from the grammar is the
error.  Inside a literal a backslash takes the next character with it: `\n` and
`\t` stand for a line feed and a tab, a backslash before a backslash or a quote
is dropped, and before any other character it stays.
-/

/-- What a backslash and the character after it stand for. -/
def unescaped (c : Char) : Text :=
  if c = 'n' then ['\n']
  else if c = 't' then ['\t']
  else if c = '\\' || isQuote c then [c]
  else ['\\', c]

/-- The rest of a literal whose opening quote has been read: its text, and what follows its
closing quote. -/
def literalBody? (quote : Char) : Text → Option (Text × Text)
  | [] => none
  | [c] => if c ≠ '\\' ∧ c = quote then some ([], []) else none
  | c :: d :: rest =>
      if c = '\\' then
        (literalBody? quote rest).map fun (body, tail) => (unescaped d ++ body, tail)
      else if c = quote then some ([], d :: rest)
      else (literalBody? quote (d :: rest)).map fun (body, tail) => (c :: body, tail)

/-- A literal takes at least its closing quote. -/
theorem length_of_literalBody? {quote : Char} {t body tail : Text}
    (h : literalBody? quote t = some (body, tail)) : tail.length < t.length := by
  fun_induction literalBody? quote t generalizing body with
  | case1 => simp at h
  | case2 c hc => simp at h; simp [← h.2]
  | case3 c hc => simp at h
  | case4 d rest ih =>
      obtain ⟨⟨inner, left⟩, hfound, heq⟩ := Option.map_eq_some_iff.1 h
      have hshorter := ih (hfound.trans (by rw [(Prod.mk.inj heq).2]))
      simp only [List.length_cons]
      omega
  | case5 d rest hc => simp at h; simp [← h.2]
  | case6 c d rest hc hquote ih =>
      obtain ⟨⟨inner, left⟩, hfound, heq⟩ := Option.map_eq_some_iff.1 h
      have hshorter := ih (hfound.trans (by rw [(Prod.mk.inj heq).2]))
      simp only [List.length_cons] at hshorter ⊢
      omega

/-- Trimming does not lengthen. -/
theorem length_trimStart_le (t : Text) : t.trimStart.length ≤ t.length :=
  (List.dropWhile_sublist _).length_le

/-- The literals at the start of a text, put together, and what follows them and the white
space after them. -/
def argument (t : Text) : Except TokenFlaw (Text × Text) :=
  match t with
  | [] => .ok ([], [])
  | c :: rest =>
      if isQuote c then
        match _h : literalBody? c rest with
        | none => .error (.unterminatedString (c :: rest))
        | some (body, tail) => (argument tail.trimStart).map fun (more, tail) => (body ++ more, tail)
      else .ok ([], c :: rest)
termination_by t.length
decreasing_by
  have := length_of_literalBody? _h
  have := length_trimStart_le tail
  simp only [List.length_cons]
  omega

/-- Arguments do not lengthen what is left to read. -/
theorem length_of_argument {t arg tail : Text} (h : argument t = .ok (arg, tail)) :
    tail.length ≤ t.length := by
  fun_induction argument t generalizing arg with
  | case1 => simp at h; simp [← h.2]
  | case2 => simp at h
  | case3 c rest hc body rest' hbody ih =>
      cases hmore : argument rest'.trimStart with
      | error e => simp [hmore, Except.map] at h
      | ok found =>
          obtain ⟨more, left⟩ := found
          simp only [hmore, Except.map, Except.ok.injEq, Prod.mk.injEq] at h
          have hle := ih (hmore.trans (by rw [h.2]))
          have hlt := length_of_literalBody? hbody
          have htrim := length_trimStart_le rest'
          simp only [List.length_cons]
          omega
  | case4 c rest hc => simp at h; simp [← h.2]

/-- The arguments from after the opening parenthesis or a comma on, and what follows the
closing parenthesis.  After a comma an argument is `expected`. -/
def arguments (expected : Bool) (t : Text) : Except TokenFlaw (List Text × Text) :=
  match _htrim : t.trimStart with
  | [] => .error .unclosedArguments
  | c :: rest =>
      if c = ')' then
        if expected then .error .trailingComma else .ok ([], rest)
      else if c = ',' then .error .emptyArgument
      else if !isQuote c then .error (.unquotedArgument (c :: rest))
      else
        match _harg : argument (c :: rest) with
        | .error flaw => .error flaw
        | .ok (_, []) => .error .unclosedArguments
        | .ok (arg, d :: tail) =>
            if d = ',' then (arguments true tail).map fun (args, tail) => (arg :: args, tail)
            else if d = ')' then .ok ([arg], tail)
            else .error (.noCommaOrParenthesis (d :: tail))
termination_by t.length
decreasing_by
  have := length_of_argument _harg
  have hle := length_trimStart_le t
  rw [_htrim] at hle
  simp only [List.length_cons] at *
  omega

/-- The arguments of a token from after the opening parenthesis to the end of the token. -/
def argumentList (t : Text) : Except TokenFlaw (List Text) := do
  let (args, tail) ← arguments false t
  match tail.trimStart with
  | [] => return args
  | rest => .error (.afterArguments rest)

/-- The function and the arguments of a token. -/
def call (t : Text) : Except TokenFlaw (Text × List Text) := do
  let (name, args) ←
    match Text.splitOnce? "(" t with
    | some (name, list) => (argumentList list).map (name, ·)
    | none => pure (t, [])
  if name.isEmpty then .error .noFunction
  else if isFunctionName name then return (name, args)
  else .error (.badFunction name)

/-- Reads the text between the braces of a token. -/
def ofInner (raw : Text) : Except TokenError Token :=
  match Text.splitOnce? separator raw.trim with
  | none => .error (.invalid raw .noSeparator)
  | some (word, rest) =>
      match Namespace.ofWord? word with
      | none => .error (.unknownNamespace word raw)
      | some scope =>
          match call rest with
          | .error flaw => .error (.invalid raw flaw)
          | .ok (function, args) => .ok ⟨scope, function, args⟩

/-- The text between the braces of a token, or the whole text if it does not stand between
braces. -/
def inner (t : Text) : Text :=
  match (Text.after? opening t).bind (Text.before? closing) with
  | some inner => inner
  | none => t

/-- Reads a token, with or without its braces. -/
def parse (t : Text) : Except TokenError Token := ofInner (inner t.trim)

end Token

def Namespace.parse (t : Text) : Except TokenError Namespace :=
  match Namespace.ofWord? t with
  | some scope => .ok scope
  | none => .error (.unknownNamespace t t)

end Stencil
