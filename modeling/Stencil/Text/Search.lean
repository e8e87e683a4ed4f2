import Stencil.Text.Basic

namespace Stencil
namespace Text

/-!
# Searching a text

Occurrences of a text in another are looked for from the left and do not
overlap.  Cutting at the first occurrence, counting and replacing are all
described by the pieces between the occurrences.
-/

/-- The text after `start`, if the text begins with it. -/
def after? (start t : Text) : Option Text := start.isPrefixOf? t

/-- The text before `ending`, if the text ends with it. -/
def before? (ending t : Text) : Option Text := ending.isSuffixOf? t

/-- The texts before and after the first occurrence of `needle`. -/
def splitOnce? (needle : Text) : Text → Option (Text × Text)
  | [] => if needle.isEmpty then some ([], []) else none
  | c :: rest =>
      match after? needle (c :: rest) with
      | some tail => some ([], tail)
      | none => (splitOnce? needle rest).map fun (head, tail) => (c :: head, tail)

/-- What comes after a start is what makes up the text with it. -/
theorem after?_eq_some_iff {start t rest : Text} :
    after? start t = some rest ↔ t = start ++ rest := by
  induction start generalizing t with
  | nil =>
      show some t = some rest ↔ t = rest
      rw [Option.some.injEq]
  | cons c start ih =>
      cases t with
      | nil =>
          show none = some rest ↔ _
          simp
      | cons d t =>
          show (if (c == d) = true then after? start t else none) = some rest ↔ _
          by_cases hcd : c = d
          · rw [if_pos (beq_iff_eq.2 hcd), ih, hcd]
            simp
          · rw [if_neg fun h => hcd (beq_iff_eq.1 h)]
            simp [Ne.symm hcd]

/-- A text is made up of an occurrence and the texts before and after it. -/
theorem append_of_splitOnce? {needle t head tail : Text}
    (h : splitOnce? needle t = some (head, tail)) : t = head ++ needle ++ tail := by
  induction t generalizing head with
  | nil =>
      unfold splitOnce? at h
      split at h
      · rename_i hempty
        simp at h hempty
        simp [h, hempty]
      · simp at h
  | cons c rest ih =>
      unfold splitOnce? at h
      split at h
      · rename_i after hafter
        simp only [Option.some.injEq, Prod.mk.injEq] at h
        rw [after?_eq_some_iff.1 hafter, ← h.1, ← h.2, List.nil_append]
      · obtain ⟨⟨before, after⟩, hfound, heq⟩ := Option.map_eq_some_iff.1 h
        simp only [Prod.mk.injEq] at heq
        rw [ih (hfound.trans (by rw [heq.2])), ← heq.1]
        simp

/-- Whether `needle` occurs in the text. -/
def has (needle t : Text) : Bool := (splitOnce? needle t).isSome

/-- Puts a character in front of the first piece. -/
def extendFirst (c : Char) : List Text → List Text
  | [] => [[c]]
  | piece :: rest => (c :: piece) :: rest

/-- The pieces between the occurrences of `needle`, once the first `skip`
characters, which belong to an occurrence already found, are passed over. -/
def piecesFrom (needle : Text) : Nat → Text → List Text
  | _, [] => [[]]
  | skip + 1, _ :: rest => piecesFrom needle skip rest
  | 0, c :: rest =>
      if needle.isPrefixOf (c :: rest) then
        [] :: piecesFrom needle (needle.length - 1) rest
      else
        extendFirst c (piecesFrom needle 0 rest)

/-- The pieces of a text between the occurrences of `needle`. -/
def pieces (needle t : Text) : List Text := piecesFrom needle 0 t

/-- The number of occurrences of `needle`, none overlapping another. -/
def count (needle t : Text) : Nat := (pieces needle t).length - 1

/-- The text with every occurrence of `needle` replaced by `replacement`. -/
def replace (needle replacement t : Text) : Text := joined replacement (pieces needle t)

/-- The text with the first occurrence of `needle` replaced by `replacement`. -/
def replaceFirst (needle replacement t : Text) : Text :=
  match splitOnce? needle t with
  | some (head, tail) => head ++ replacement ++ tail
  | none => t

/-- The byte offset of the first occurrence of `needle`. -/
def find? (needle t : Text) : Option Nat :=
  (splitOnce? needle t).map fun (head, _) => byteSize head

end Text
end Stencil
