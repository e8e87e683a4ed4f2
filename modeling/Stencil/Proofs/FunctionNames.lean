import Mathlib.Data.List.Basic
import Stencil.Token.Basic

namespace Stencil

/-!
# Function names

The functions of tokens, and with them the methods that can be registered, have
names of one form: identifiers joined by points.
-/

namespace Text

theorem joined_eq_intercalate (separator : Text) (pieces : List Text) :
    joined separator pieces = separator.intercalate pieces := by
  induction pieces with
  | nil => rfl
  | cons piece rest ih =>
      cases rest with
      | nil => exact List.intercalate_singleton.symm
      | cons next rest =>
          rw [List.intercalate_cons_cons, ← ih]
          rfl

theorem joined_cons_of_ne_nil {separator : Text} {rest : List Text} (hrest : rest ≠ [])
    (piece : Text) :
    joined separator (piece :: rest) = piece ++ separator ++ joined separator rest := by
  cases rest with
  | nil => exact absurd rfl hrest
  | cons next rest => rfl

/-- A joined text has no characters but those of its pieces and of the separator. -/
theorem of_mem_joined {separator : Text} {pieces : List Text} {c : Char}
    (hc : c ∈ joined separator pieces) : (∃ piece ∈ pieces, c ∈ piece) ∨ c ∈ separator := by
  induction pieces with
  | nil => cases hc
  | cons piece rest ih =>
      cases rest with
      | nil => exact Or.inl ⟨piece, List.mem_cons_self, hc⟩
      | cons next rest =>
          rw [joined, List.mem_append, List.mem_append] at hc
          rcases hc with (hpiece | hseparator) | hrest
          · exact Or.inl ⟨piece, List.mem_cons_self, hpiece⟩
          · exact Or.inr hseparator
          · rcases ih hrest with ⟨other, hother, hmem⟩ | hseparator
            · exact Or.inl ⟨other, List.mem_cons_of_mem piece hother, hmem⟩
            · exact Or.inr hseparator

end Text

namespace Token

/-- Every character of an identifier can stand in an identifier. -/
theorem isIdentifierChar_of_mem {name : Text} (hname : isIdentifier name = true) {c : Char}
    (hc : c ∈ name) : isIdentifierChar c = true := by
  cases name with
  | nil => cases hc
  | cons d rest =>
      simp only [isIdentifier, Bool.and_eq_true, List.all_eq_true] at hname
      rcases List.mem_cons.1 hc with rfl | hrest
      · have hstart := hname.1
        simp only [isIdentifierStart, Bool.or_eq_true, decide_eq_true_eq] at hstart
        simp only [isIdentifierChar, Char.isAlphanum, Bool.or_eq_true, decide_eq_true_eq]
        rcases hstart with hletter | hunderscore
        · exact Or.inl (Or.inl hletter)
        · exact Or.inr hunderscore
      · exact hname.2 c hrest

/-- Identifiers are made of ASCII letters, digits and underscores, and none of them is white. -/
theorem not_white_of_isIdentifierChar {c : Char} (hc : isIdentifierChar c = true) :
    isWhite c = false := by
  have hchar : isIdentifierChar c =
      ((decide (65 ≤ c.val ∧ c.val ≤ 90) ||
        (decide (97 ≤ c.val) && decide (c.val ≤ 122))) ||
          (decide (48 ≤ c.val) && decide (c.val ≤ 57)) || decide (c = '_')) := rfl
  simp only [hchar, Bool.or_eq_true, Bool.and_eq_true, decide_eq_true_eq,
    UInt32.le_iff_toNat_le] at hc
  rcases hc with hc | rfl
  · have hval : c.toNat = c.val.toNat := rfl
    have hbounds : 48 ≤ c.toNat ∧ c.toNat ≤ 122 := by
      rw [hval]
      rcases hc with (⟨hlow, hhigh⟩ | ⟨hlow, hhigh⟩) | ⟨hlow, hhigh⟩
      · exact ⟨Nat.le_trans (by decide) hlow, Nat.le_trans hhigh (by decide)⟩
      · exact ⟨Nat.le_trans (by decide) hlow, Nat.le_trans hhigh (by decide)⟩
      · exact ⟨Nat.le_trans (by decide) hlow, Nat.le_trans hhigh (by decide)⟩
    simp only [isWhite, whiteSpaceRanges, List.any_cons, List.any_nil, Bool.or_false,
      Bool.or_eq_false_iff, Bool.and_eq_false_iff, decide_eq_false_iff_not]
    omega
  · decide

/-- One or more identifiers joined by points. -/
def IsDotted (name : Text) : Prop :=
  ∃ identifiers : List Text, identifiers ≠ [] ∧
    (∀ identifier ∈ identifiers, isIdentifier identifier = true) ∧
      name = Text.joined "." identifiers

/-- A name is cut at its points, and none of the pieces may be anything but an identifier. -/
theorem isFunctionName_iff {name : Text} : isFunctionName name = true ↔ IsDotted name := by
  have hsplit : name.splitOnP (· = '.') = name.splitOn '.' := List.splitOn_eq_splitOnP.symm
  rw [isFunctionName, hsplit, List.all_eq_true]
  constructor
  · intro hall
    refine ⟨name.splitOn '.', List.splitOn_ne_nil '.' name, hall, ?_⟩
    rw [Text.joined_eq_intercalate]
    exact (List.intercalate_splitOn '.').symm
  · rintro ⟨identifiers, hne, hall, rfl⟩
    have hpoint : ∀ identifier ∈ identifiers, '.' ∉ identifier := by
      intro identifier hmem hpoint
      cases isIdentifierChar_of_mem (hall identifier hmem) hpoint
    rw [Text.joined_eq_intercalate]
    exact (List.splitOn_intercalate '.' hpoint hne).symm ▸ hall

instance (name : Text) : Decidable (IsDotted name) := decidable_of_iff _ isFunctionName_iff

namespace IsDotted

variable {name : Text}

/-- The characters of a function name are those of identifiers, and points. -/
theorem char_of_mem (hname : IsDotted name) {c : Char} (hc : c ∈ name) :
    isIdentifierChar c = true ∨ c = '.' := by
  obtain ⟨identifiers, -, hall, rfl⟩ := hname
  rcases Text.of_mem_joined hc with ⟨identifier, hidentifier, hmem⟩ | hpoint
  · exact Or.inl (isIdentifierChar_of_mem (hall identifier hidentifier) hmem)
  · exact Or.inr (List.mem_singleton.1 hpoint)

theorem ne_nil (hname : IsDotted name) : name ≠ [] := by
  rintro rfl
  cases isFunctionName_iff.2 hname

end IsDotted

end Token
end Stencil
