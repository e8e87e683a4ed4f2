import Stencil.Decimal.Numeral
import Stencil.Json.Value
import Stencil.Text.Lines

namespace Stencil
namespace Json

/-!
# Reading JSON

A document is read as a stream, from the left, and reading stops at the first
problem.  A problem is of one of three kinds, and is placed by the number of
bytes that follow it: an offending character is placed after its first byte, a
value of the wrong type after the value.

The grammar is strict: white space is space, tab, line feed and carriage return,
numbers have no superfluous zeros, strings hold no control characters, surrogate
escapes come in pairs, and at most 127 arrays and objects nest.
-/

/-- The kinds of problems. -/
inductive Problem where
  /-- The text is no JSON. -/
  | malformed
  /-- The text ends too early. -/
  | unfinished
  /-- The text is JSON, but not of the wanted form. -/
  | unexpected
  deriving DecidableEq, Repr

/-- A problem, with the number of bytes after the place where it was met. -/
structure ReadError where
  problem : Problem
  remaining : Nat
  deriving DecidableEq, Repr

/-- The byte that an error in a document is attributed to. -/
def ReadError.place? (source : Text) (e : ReadError) : Option Nat :=
  Position.byteBefore? source (Position.ofOffset source (Text.byteSize source - e.remaining))

/-- A reader takes a value from the front of a text. -/
abbrev Reader (α : Type) := StateT Text (Except ReadError) α

namespace Reader

variable {α : Type}

/-- Reports a problem after everything that has been read. -/
def failHere (problem : Problem) : Reader α := fun t =>
  .error ⟨problem, Text.byteSize t⟩

/-- Reports a problem with the next byte. -/
def failNext (problem : Problem) : Reader α := fun t =>
  .error ⟨problem, Text.byteSize t - 1⟩

/-- The next character, which stays. -/
def peek? : Reader (Option Char) := do
  return (← get).head?

def skip : Reader Unit := modify (·.drop 1)

def isSpace (c : Char) : Bool := c = ' ' || c = '\t' || c = '\n' || c = '\r'

def skipSpace : Reader Unit := modify (·.dropWhile isSpace)

def letters : Text → Reader Unit
  | [] => pure ()
  | c :: rest => do
      match ← peek? with
      | none => failHere .unfinished
      | some d => if d = c then do skip; letters rest else failNext .malformed

/-! ## Strings -/

def hexValue? (c : Char) : Option Nat :=
  if '0' ≤ c ∧ c ≤ '9' then some (c.toNat - 48)
  else if 'a' ≤ c ∧ c ≤ 'f' then some (c.toNat - 87)
  else if 'A' ≤ c ∧ c ≤ 'F' then some (c.toNat - 55)
  else none

/-- The number that four hexadecimal digits at the start of a text denote. -/
def hexNumber? : Text → Option Nat
  | a :: b :: c :: d :: _ => do
      return 4096 * (← hexValue? a) + 256 * (← hexValue? b) + 16 * (← hexValue? c) + (← hexValue? d)
  | _ => none

def hexEscape (t : Text) : Except ReadError Nat :=
  if Text.byteSize (t.take 4) < 4 then .error ⟨.unfinished, 0⟩
  else
    match hexNumber? t with
    | some n => .ok n
    | none => .error ⟨.malformed, Text.byteSize t - 4⟩

/-- The second half of a surrogate pair whose first half is `high`. -/
def lowSurrogate (high : Nat) (t : Text) : Except ReadError Char :=
  match t with
  | [] => .error ⟨.unfinished, 0⟩
  | '\\' :: rest =>
      match rest with
      | [] => .error ⟨.unfinished, 0⟩
      | 'u' :: digits => do
          let low ← hexEscape digits
          if 0xDC00 ≤ low ∧ low ≤ 0xDFFF then
            .ok (Char.ofNat (0x10000 + (high - 0xD800) * 0x400 + (low - 0xDC00)))
          else .error ⟨.malformed, Text.byteSize (digits.drop 4)⟩
      | rest => .error ⟨.malformed, Text.byteSize rest - 1⟩
  | t => .error ⟨.malformed, Text.byteSize t - 1⟩

/-- The character of an escape whose backslash has been read, and the number of characters
that the rest of the escape takes. -/
def escape (t : Text) : Except ReadError (Char × Nat) :=
  match t with
  | [] => .error ⟨.unfinished, 0⟩
  | '"' :: _ => .ok ('"', 1)
  | '\\' :: _ => .ok ('\\', 1)
  | '/' :: _ => .ok ('/', 1)
  | 'b' :: _ => .ok (Char.ofNat 8, 1)
  | 'f' :: _ => .ok (Char.ofNat 12, 1)
  | 'n' :: _ => .ok ('\n', 1)
  | 'r' :: _ => .ok ('\r', 1)
  | 't' :: _ => .ok ('\t', 1)
  | 'u' :: rest => do
      let n ← hexEscape rest
      if 0xDC00 ≤ n ∧ n ≤ 0xDFFF then .error ⟨.malformed, Text.byteSize (rest.drop 4)⟩
      else if 0xD800 ≤ n ∧ n ≤ 0xDBFF then
        return (← lowSurrogate n (rest.drop 4), 11)
      else return (Char.ofNat n, 5)
  | t => .error ⟨.malformed, Text.byteSize t - 1⟩

/-- The rest of a string whose opening quote has been read, and the text after it. -/
def stringBody (t : Text) : Except ReadError (Text × Text) :=
  match t with
  | [] => .error ⟨.unfinished, 0⟩
  | c :: rest =>
      if c = '"' then .ok ([], rest)
      else if c = '\\' then
        match escape rest with
        | .error e => .error e
        | .ok (d, used) => (stringBody (rest.drop used)).map fun (s, tail) => (d :: s, tail)
      else if c.toNat < 32 then .error ⟨.malformed, Text.byteSize rest⟩
      else (stringBody rest).map fun (s, tail) => (c :: s, tail)
termination_by t.length
decreasing_by
  all_goals simp only [List.length_cons, List.length_drop]
  all_goals omega

/-- Reads a string from its opening quote on. -/
def string : Reader Text := do
  skip
  fun t => stringBody t

/-! ## Numbers -/

/-- The greatest exponent that is read at all. -/
def greatestExponent : Nat := 2147483647

/-- The size of the least integer that is not read as a double. -/
def leastInteger : Nat := Nat.pow 2 63

/-- The number of digits after the first ones that exceed the greatest exponent. -/
def excess? (digits : Text) : Option Nat :=
  ((List.range (digits.length + 1)).find? fun k =>
    greatestExponent < Text.digitsToNat (digits.take k)).map (digits.length - ·)

/-- The double of a numeral, where `rest` is the text after the numeral. -/
def doubleOf (negative : Bool) (n : Decimal.Numeral) (rest : Text) : Except ReadError Number :=
  match n.toDouble? negative with
  | some d => .ok (.double d)
  | none => .error ⟨.malformed, Text.byteSize rest⟩

/-- The number of a numeral and of its exponent, which is read from after the letter on. -/
def exponentPart (negative : Bool) (n : Decimal.Numeral) (t : Text) :
    Except ReadError (Number × Text) :=
  let (minus, body) : Bool × Text :=
    match t with
    | '+' :: rest => (false, rest)
    | '-' :: rest => (true, rest)
    | rest => (false, rest)
  match body with
  | [] => .error ⟨.unfinished, 0⟩
  | c :: _ =>
      if !c.isDigit then .error ⟨.malformed, Text.byteSize body - 1⟩
      else
        let exponent := body.takeWhile Char.isDigit
        let rest := body.dropWhile Char.isDigit
        match excess? exponent with
        | some unread =>
            if n.digits ≠ 0 ∧ minus = false then
              .error ⟨.malformed, Text.byteSize rest + unread⟩
            else .ok (.double (Double.zero negative), rest)
        | none =>
            let e : Int := Text.digitsToNat exponent
            (doubleOf negative (n.shifted (if minus then -e else e)) rest).map (·, rest)

/-- The number of a numeral without point and exponent: an integer if it fits 64 bits.  The
negative zero is a double. -/
def integerOf (negative : Bool) (n : Decimal.Numeral) (rest : Text) : Except ReadError Number :=
  if n.exponent ≠ 0 then doubleOf negative n rest
  else if negative then
    if n.digits ≠ 0 ∧ n.digits ≤ leastInteger then .ok (.integer (-(n.digits : Int)))
    else doubleOf negative n rest
  else .ok (.integer n.digits)

/-- The number that begins with a numeral, where `t` is what follows its integer digits. -/
def afterDigits (negative : Bool) (n : Decimal.Numeral) (t : Text) :
    Except ReadError (Number × Text) :=
  match t with
  | '.' :: tail =>
      let fraction := tail.takeWhile Char.isDigit
      let rest := tail.dropWhile Char.isDigit
      match fraction, rest with
      | [], [] => .error ⟨.unfinished, 0⟩
      | [], rest => .error ⟨.malformed, Text.byteSize rest - 1⟩
      | _, 'e' :: exponent => exponentPart negative (n.withFraction fraction) exponent
      | _, 'E' :: exponent => exponentPart negative (n.withFraction fraction) exponent
      | _, rest => (doubleOf negative (n.withFraction fraction) rest).map (·, rest)
  | 'e' :: exponent => exponentPart negative n exponent
  | 'E' :: exponent => exponentPart negative n exponent
  | rest => (integerOf negative n rest).map (·, rest)

/-- The number at the start of a text that begins with a digit or a minus sign. -/
def numeral (t : Text) : Except ReadError (Number × Text) :=
  let (negative, body) : Bool × Text :=
    match t with
    | '-' :: rest => (true, rest)
    | rest => (false, rest)
  match body with
  | [] => .error ⟨.unfinished, 0⟩
  | '0' :: rest =>
      match rest with
      | [] => afterDigits negative ⟨0, 0⟩ rest
      | c :: _ =>
          if c.isDigit then .error ⟨.malformed, Text.byteSize rest - 1⟩
          else afterDigits negative ⟨0, 0⟩ rest
  | c :: _ =>
      if c.isDigit then
        afterDigits negative (.ofDigits (body.takeWhile Char.isDigit)) (body.dropWhile Char.isDigit)
      else .error ⟨.malformed, Text.byteSize body - 1⟩

def number : Reader Number := fun t => numeral t

/-! ## Arrays and objects -/

/-- Whether another item follows in an array; stays before the closing bracket. -/
def nextItem (first : Bool) : Reader Bool := do
  skipSpace
  match ← peek? with
  | none => failNext .unfinished
  | some ']' => return false
  | some c =>
      if first then return true
      else if c = ',' then
        skip
        skipSpace
        match ← peek? with
        | none => failNext .unfinished
        | some ']' => failNext .malformed
        | some _ => return true
      else failNext .malformed

/-- Whether another field follows in an object; stays before its name or the closing
bracket. -/
def nextField (first : Bool) : Reader Bool := do
  skipSpace
  match ← peek? with
  | none => failNext .unfinished
  | some '\x7d' => return false
  | some c =>
      if first then
        if c = '"' then return true else failNext .malformed
      else if c = ',' then
        skip
        skipSpace
        match ← peek? with
        | none => failNext .unfinished
        | some '"' => return true
        | some _ => failNext .malformed
      else failNext .malformed

/-- Reads the colon after the name of a field. -/
def colon : Reader Unit := do
  skipSpace
  match ← peek? with
  | none => failNext .unfinished
  | some ':' => skip
  | some _ => failNext .malformed

def closeArray : Reader Unit := do
  skipSpace
  match ← peek? with
  | none => failNext .unfinished
  | some ']' => skip
  | some ',' => do
      skip
      skipSpace
      failNext .malformed
  | some _ => failNext .malformed

def closeObject : Reader Unit := do
  skipSpace
  match ← peek? with
  | none => failNext .unfinished
  | some '\x7d' => skip
  | some _ => failNext .malformed

/-- Reads the items of an array; every item takes a character, so as many rounds as there
are characters are enough. -/
def itemsWithin (item : Reader α) : Nat → Bool → Reader (List α)
  | 0, _ => failHere .malformed
  | rounds + 1, first => do
      if ← nextItem first then
        let x ← item
        return x :: (← itemsWithin item rounds false)
      else return []

/-- Reads an array from its opening bracket on. -/
def arrayOf (item : Reader α) : Reader (List α) := do
  skip
  let items ← itemsWithin item ((← get).length + 1) true
  closeArray
  return items

/-- Reads the fields of an object, added to those read before. -/
def fieldsWithin (item : Reader α) : Nat → Bool → Fields α → Reader (Fields α)
  | 0, _, _ => failHere .malformed
  | rounds + 1, first, fields => do
      if ← nextField first then
        let name ← string
        colon
        let x ← item
        fieldsWithin item rounds false (fields.insert name x)
      else return fields

/-- Reads an object from its opening bracket on. -/
def objectOf (item : Reader α) : Reader (Fields α) := do
  skip
  let fields ← fieldsWithin item ((← get).length + 1) true []
  closeObject
  return fields

/-! ## Values -/

/-- Reads a value, whose items and fields, if they may have any, `inner?` reads. -/
def valueWith (inner? : Option (Reader Json)) : Reader Json := do
  skipSpace
  match ← peek? with
  | none => failNext .unfinished
  | some 'n' => do skip; letters "ull"; return .null
  | some 't' => do skip; letters "rue"; return .bool true
  | some 'f' => do skip; letters "alse"; return .bool false
  | some '"' => return Json.string (← string)
  | some '[' =>
      match inner? with
      | none => failNext .malformed
      | some inner => return .array (← arrayOf inner)
  | some '\x7b' =>
      match inner? with
      | none => failNext .malformed
      | some inner => return .object (← objectOf inner)
  | some c =>
      if c = '-' || c.isDigit then return Json.number (← number)
      else failNext .malformed

/-- Reads a value in which at most `depth` arrays and objects nest. -/
def value : Nat → Reader Json
  | 0 => valueWith none
  | depth + 1 => valueWith (some (value depth))

/-- The number of arrays and objects that may nest. -/
def greatestDepth : Nat := 127

/-- Applies a reader to a whole document, after which only white space may follow. -/
def document (reader : Reader α) (t : Text) : Except ReadError α := do
  let (x, rest) ← reader.run t
  match rest.dropWhile isSpace with
  | [] => return x
  | rest => .error ⟨.malformed, Text.byteSize rest - 1⟩

end Reader

/-- The value of a document. -/
def parse (t : Text) : Except ReadError Json := Reader.document (Reader.value Reader.greatestDepth) t

/-- The value of a document, if it is one. -/
def parse? (t : Text) : Option Json := (parse t).toOption

end Json
end Stencil
