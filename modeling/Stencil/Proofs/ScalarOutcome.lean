import Stencil.Proofs.FloatingNumerals

namespace Stencil

/-!
# What scalars come to

The types that ask for no other type are described as the containers are, by the
functions that they compute.  The descriptions are in `Simple`.  They write an
integer with the digits that the library has for it, put a point into a formatted
number that lacks one, and look up in a table what is escaped between quotes.

`Literal.toOption_integer` and the theorems after it say that the literals are the
described ones, and that no value has a literal but those of its type.
-/

/-! ## Descriptions -/

namespace Simple

/-- The digits of an integer, after a minus sign if it is negative. -/
def decimal (n : Int) : Text :=
  if n < 0 then '-' :: Nat.toDigits 10 n.natAbs else Nat.toDigits 10 n.natAbs

/-- An integer within bounds. -/
def integer (least greatest : Int) : Json → Option Text
  | .number (.integer n) => if least ≤ n ∧ n ≤ greatest then some (decimal n) else none
  | _ => none

/-- A number with a point, before a suffix. -/
def floating (suffix : Text) : Json → Option Text
  | .number (.integer n) => some (decimal n ++ ".0" ++ suffix)
  | .number (.double d) =>
      some (Decimal.insertPoint (Literal.Number.formatted (.double d)) ++ suffix)
  | _ => none

/-- The word for a truth value. -/
def truth : Json → Option Text
  | .bool true => some "true"
  | .bool false => some "false"
  | _ => none

/-- What cannot stand between quotes of a kind, with the characters that stand for it behind a
backslash. -/
def escapes (quote : Char) : List (Char × Char) :=
  [(quote, quote), ('\\', '\\'), ('\n', 'n'), ('\t', 't'), ('\r', 'r')]

/-- A character between quotes of a kind. -/
def escaped (quote c : Char) : Text :=
  match (escapes quote).lookup c with
  | some letter => ['\\', letter]
  | none => [c]

/-- A text between quotes of a kind. -/
def quoted (quote : Char) (s : Text) : Text := [quote] ++ s.flatMap (escaped quote) ++ [quote]

/-- A string of one character in single quotes. -/
def character : Json → Option Text
  | .string [c] => some (quoted '\'' [c])
  | _ => none

/-- A string in double quotes. -/
def string : Json → Option Text
  | .string s => some (quoted '"' s)
  | _ => none

/-- Nothing but `null`. -/
def empty (name : Text) : Json → Option Text
  | .null => some (name ++ "\x7b\x7d")
  | _ => none

/-- The text of a string. -/
def source : Json → Option Text
  | .string text => some text
  | _ => none

end Simple

/-! ## Numbers -/

theorem Text.ofNat_eq_toDigits (n : Nat) : ofNat n = Nat.toDigits 10 n := by
  have hdigit : ∀ k < 10, Char.ofNat (48 + k) = Nat.digitChar k := by decide
  fun_induction ofNat n with
  | case1 n hn => rw [Nat.toDigits_of_lt_base hn, hdigit n hn]
  | case2 n hn ih =>
      -- Both take the last digit off the end.
      rw [ih, hdigit _ (Nat.mod_lt n (by decide)), Nat.toDigits_eq_if (n := n) (by decide),
        if_neg hn]

theorem Text.ofInt_eq_decimal (n : Int) : ofInt n = Simple.decimal n := by
  cases n with
  | ofNat n => exact ofNat_eq_toDigits n
  | negSucc n =>
      rw [ofInt, ofNat_eq_toDigits, Simple.decimal, if_pos (Int.negSucc_lt_zero n)]
      rfl

namespace Literal

theorem toOption_integer (range : IntegerType) (name : Text) (value : Json) :
    (integer range name value).toOption = Simple.integer range.least range.greatest value := by
  cases value with
  | number number =>
      cases number with
      | integer n =>
          rw [integer, Simple.integer, Text.ofInt_eq_decimal]
          by_cases hrange : range.least ≤ n ∧ n ≤ range.greatest
          · rw [if_pos hrange, if_neg (by omega), if_neg (by omega)]
            rfl
          · rw [if_neg hrange]
            -- One of the two checks fails.
            split
            · rfl
            · rw [if_pos (by omega)]
              rfl
      | double d => rfl
  | null | bool | string | array | object => rfl

/-- A number gets a point where it is formatted without one. -/
theorem floating_number (number : Json.Number) (suffix : Text) :
    Simple.floating suffix (.number number) = some (Number.withPoint number ++ suffix) := by
  cases number with
  | integer n => rw [Simple.floating, Number.withPoint, Text.ofInt_eq_decimal]
  | double d =>
      obtain ⟨w, htext, hpointed, -⟩ := Number.exists_shows (.double d)
      rw [Simple.floating, ← htext, w.insertPoint_text, hpointed]

theorem toOption_double (name : Text) (value : Json) :
    (double name value).toOption = Simple.floating [] value := by
  cases value with
  | number number =>
      rw [floating_number, List.append_nil]
      rfl
  | null | bool | string | array | object => rfl

theorem toOption_float (name : Text) (value : Json) :
    (float name value).toOption = Simple.floating "f" value := by
  cases value with
  | number number => exact (floating_number number "f").symm
  | null | bool | string | array | object => rfl

/-! ## Truth values and strings -/

theorem toOption_truth (name : Text) (value : Json) :
    (truth name value).toOption = Simple.truth value := by
  cases value with
  | bool b => cases b <;> rfl
  | null | number | string | array | object => rfl

/-- The checks are made in the order of the table. -/
theorem escaped_eq (quote c : Char) : escaped quote c = Simple.escaped quote c := by
  have hlookup : ∀ (key letter : Char) (rest : List (Char × Char)),
      List.lookup c ((key, letter) :: rest) =
        if c = key then some letter else rest.lookup c := by
    intro key letter rest
    rw [List.lookup_cons]
    by_cases hkey : c = key
    · rw [if_pos hkey, hkey, beq_self_eq_true]
    · rw [if_neg hkey, beq_eq_false_iff_ne.2 hkey]
  simp only [escaped, Simple.escaped, Simple.escapes, hlookup, List.lookup_nil]
  split_ifs with hquote
  · rw [hquote]
  all_goals rfl

theorem quoted_eq (quote : Char) (s : Text) : quoted quote s = Simple.quoted quote s := by
  rw [quoted, Simple.quoted, funext (escaped_eq quote)]
  rfl

theorem toOption_character (name : Text) (value : Json) :
    (character name value).toOption = Simple.character value := by
  cases value with
  | string s =>
      match s with
      | [] => rfl
      | [c] => exact congrArg some (quoted_eq '\'' [c])
      | _ :: _ :: _ => rfl
  | null | bool | number | array | object => rfl

theorem toOption_string (name : Text) (value : Json) :
    (string name value).toOption = Simple.string value := by
  cases value with
  | string s => exact congrArg some (quoted_eq '"' s)
  | null | bool | number | array | object => rfl

/-! ## Values of one text -/

theorem toOption_empty {name : Text} (hname : TypeName.canonical name = name) (value : Json) :
    (empty name value).toOption = Simple.empty name value := by
  cases value with
  | null =>
      rw [empty, hname]
      rfl
  | bool | number | string | array | object => rfl

theorem toOption_callable (name : Text) (value : Json) :
    (callable name value).toOption = Simple.source value := by
  cases value <;> rfl

end Literal
end Stencil
