import Stencil.Token.Reader

namespace Stencil

/-!
# Tokens in a line

A line is plain text and tokens by turns.  Two opening braces begin a token only
if an identifier and `::` follow them directly, so other uses of double braces
stay plain text; they are passed over together.  A token ends at the first two
closing braces that do not stand inside quotes.
-/

/-- A part of a line. -/
inductive Segment where
  /-- Text outside tokens. -/
  | plain (text : Text)
  /-- A token, with the text that it was read from. -/
  | token (source : Text) (token : Token)
  deriving DecidableEq, Repr

/-- A token and the bytes of its line that it takes, braces included. -/
structure Located where
  token : Token
  start : Nat
  stop : Nat
  deriving DecidableEq, Repr

namespace Segment

/-- The text of a part of a line. -/
def source : Segment → Text
  | plain text => text
  | token source _ => source

/-- The tokens of a line, where its parts begin at a byte offset. -/
def locatedFrom : Nat → List Segment → List Located
  | _, [] => []
  | offset, plain text :: rest => locatedFrom (offset + Text.byteSize text) rest
  | offset, token source found :: rest =>
      let stop := offset + Text.byteSize source
      ⟨found, offset, stop⟩ :: locatedFrom stop rest

/-- The tokens of a line, with their places. -/
def located (line : List Segment) : List Located := locatedFrom 0 line

def tokens : List Segment → List Token
  | [] => []
  | plain _ :: rest => tokens rest
  | token _ found :: rest => found :: tokens rest

/-- A line in which every token is replaced by its text, where `index` tokens come before.
The first failure ends the replacement. -/
def replaceFrom {ε : Type} (render : Nat → Token → Except ε Text) :
    Nat → List Segment → Except ε Text
  | _, [] => .ok []
  | index, plain text :: rest => do
      return text ++ (← replaceFrom render index rest)
  | index, token _ found :: rest => do
      let text ← render index found
      return text ++ (← replaceFrom render (index + 1) rest)

/-- A line in which every token is replaced by the text that `render` gives for its number
and itself. -/
def replace {ε : Type} (render : Nat → Token → Except ε Text) (line : List Segment) :
    Except ε Text := replaceFrom render 0 line

end Segment

namespace Token

/-- Whether an identifier and the separator follow directly. -/
def begins (t : Text) : Bool :=
  isIdentifier (t.takeWhile isIdentifierChar) &&
    separator.isPrefixOf (t.dropWhile isIdentifierChar)

/-- The text up to the closing braces of a token, and the text after them.  Inside a quoted
part, begun by the character `quote?`, a backslash takes the next character with it; then
`taken` holds. -/
def splitClosing? (quote? : Option Char) (taken : Bool) : Text → Option (Text × Text)
  | [] => none
  | c :: rest =>
      let continued (quote? : Option Char) (taken : Bool) :=
        (splitClosing? quote? taken rest).map fun (inner, tail) => (c :: inner, tail)
      match quote? with
      | some quote =>
          if taken then continued (some quote) false
          else if c = '\\' then continued (some quote) true
          else if c = quote then continued none false
          else continued (some quote) false
      | none =>
          if isQuote c then continued (some c) false
          else
            match Text.after? closing (c :: rest) with
            | some tail => some ([], tail)
            | none => continued none false

/-- A token takes at least its closing braces. -/
theorem append_of_splitClosing? {quote? : Option Char} {taken : Bool} {t inner tail : Text}
    (h : splitClosing? quote? taken t = some (inner, tail)) :
    t = inner ++ closing ++ tail := by
  induction t generalizing quote? taken inner with
  | nil => simp [splitClosing?] at h
  | cons c rest ih =>
      have hstep : ∀ {quote? : Option Char} {taken : Bool},
          (splitClosing? quote? taken rest).map (fun found => (c :: found.1, found.2)) =
            some (inner, tail) → c :: rest = inner ++ closing ++ tail := by
        intro quote? taken hmap
        obtain ⟨⟨before, after⟩, hfound, heq⟩ := Option.map_eq_some_iff.1 hmap
        simp only [Prod.mk.injEq] at heq
        rw [ih (hfound.trans (by rw [heq.2])), ← heq.1]
        simp
      unfold splitClosing? at h
      split at h
      · split at h
        · exact hstep h
        · split at h
          · exact hstep h
          · split at h <;> exact hstep h
      · split at h
        · exact hstep h
        · split at h
          · rename_i found hafter
            simp only [Option.some.injEq, Prod.mk.injEq] at h
            rw [Text.after?_eq_some_iff.1 hafter, ← h.1, ← h.2, List.nil_append]
          · exact hstep h

/-- The parts of a line.  The first text that begins a token without being one is the
error. -/
def scan (line : Text) : Except TokenError (List Segment) :=
  match _hsplit : Text.splitOnce? opening line with
  | none => .ok [.plain line]
  | some (before, body) =>
      if begins body then
        match _hclose : splitClosing? none false body with
        | none => .error (.invalid (opening ++ body) .unclosedToken)
        | some (inner, rest) =>
            match ofInner inner with
            | .error cause => .error cause
            | .ok token =>
                (scan rest).map fun parts =>
                  .plain before :: .token (opening ++ inner ++ closing) token :: parts
      else
        -- Both braces are passed over, also if the second one belongs to a token.
        (scan body).map (.plain (before ++ opening) :: ·)
termination_by line.length
decreasing_by
  · rw [Text.append_of_splitOnce? _hsplit, append_of_splitClosing? _hclose]
    simp only [List.length_append]
    have : 0 < opening.length := by decide
    omega
  · rw [Text.append_of_splitOnce? _hsplit]
    simp only [List.length_append]
    have : 0 < opening.length := by decide
    omega

/-- The parts of a line make up the line. -/
theorem flatMap_source_of_scan {line : Text} {parts : List Segment}
    (h : scan line = .ok parts) : parts.flatMap Segment.source = line := by
  fun_induction scan line generalizing parts with
  | case1 line hsplit =>
      simp only [Except.ok.injEq] at h
      simp [← h, Segment.source]
  | case2 line before body hsplit hbegins hclose => simp at h
  | case3 line before body hsplit hbegins inner rest hclose cause hinner => simp at h
  | case4 line before body hsplit hbegins inner rest hclose token hinner ih =>
      cases hrest : scan rest with
      | error cause => simp [hrest, Except.map] at h
      | ok others =>
          simp only [hrest, Except.map, Except.ok.injEq] at h
          rw [← h, Text.append_of_splitOnce? hsplit, append_of_splitClosing? hclose]
          simp [Segment.source, ih hrest]
  | case5 line before body hsplit hbegins ih =>
      cases hbody : scan body with
      | error cause => simp [hbody, Except.map] at h
      | ok others =>
          simp only [hbody, Except.map, Except.ok.injEq] at h
          rw [← h, Text.append_of_splitOnce? hsplit]
          simp [Segment.source, ih hbody]

end Token
end Stencil
