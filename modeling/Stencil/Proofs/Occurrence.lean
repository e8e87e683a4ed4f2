import Mathlib.Logic.Basic
import Stencil.Text.Search

namespace Stencil
namespace Text

/-!
# First occurrences

`splitOnce?` cuts a text at the leftmost occurrence of another one.  This module
pins it down by that property alone, so that the scanner can be reasoned about
by where things stand in a line and not by the recursion that looks for them.
The run of one character at the end of a text is the second notion the scanner
needs: it decides how opening braces are paired off.
-/

/-- Proper starts are shorter in bytes. -/
theorem byteSize_lt_append {t : Text} (s : Text) (ht : t ≠ []) :
    byteSize s < byteSize (s ++ t) := by
  cases t with
  | nil => exact absurd rfl ht
  | cons c rest =>
      have hpos := Char.utf8Size_pos c
      simp only [byteSize_append, byteSize_cons]
      omega

/-- The cut is at an occurrence, and no occurrence begins further to the left. -/
theorem splitOnce?_eq_some_iff {needle t head tail : Text} :
    splitOnce? needle t = some (head, tail) ↔
      t = head ++ needle ++ tail ∧
        ∀ front rest, t = front ++ needle ++ rest → head.length ≤ front.length := by
  induction t generalizing head with
  | nil =>
      unfold splitOnce?
      cases needle with
      | nil =>
          constructor
          · intro h
            simp only [List.isEmpty_nil, if_true, Option.some.injEq, Prod.mk.injEq] at h
            obtain ⟨rfl, rfl⟩ := h
            exact ⟨rfl, fun _ _ _ => Nat.zero_le _⟩
          · rintro ⟨hcut, -⟩
            simp only [List.append_nil, List.nil_eq, List.append_eq_nil_iff] at hcut
            simp [hcut]
      | cons d needle => simp
  | cons c t ih =>
      unfold splitOnce?
      cases hafter : after? needle (c :: t) with
      | some found =>
          have htext := after?_eq_some_iff.1 hafter
          constructor
          · intro h
            simp only [Option.some.injEq, Prod.mk.injEq] at h
            obtain ⟨rfl, rfl⟩ := h
            exact ⟨by simpa using htext, fun _ _ _ => Nat.zero_le _⟩
          · rintro ⟨hcut, hfirst⟩
            have hlength := hfirst [] found (by simpa using htext)
            obtain rfl : head = [] := List.eq_nil_of_length_eq_zero (Nat.le_zero.1 hlength)
            rw [htext, List.nil_append, List.append_cancel_left_eq] at hcut
            simp [hcut]
      | none =>
          -- Nothing begins here, so the cut is one of the rest, moved by one character.
          have hhere : ∀ rest, c :: t ≠ needle ++ rest := by
            intro rest hrest
            rw [after?_eq_some_iff.2 hrest] at hafter
            cases hafter
          constructor
          · intro h
            obtain ⟨⟨before, after⟩, hfound, heq⟩ := Option.map_eq_some_iff.1 h
            simp only [Prod.mk.injEq] at heq
            obtain ⟨rfl, rfl⟩ := heq
            obtain ⟨hcut, hfirst⟩ := ih.1 hfound
            refine ⟨by simp [hcut], ?_⟩
            intro front rest hfront
            cases front with
            | nil => exact absurd (by simpa using hfront) (hhere rest)
            | cons d front =>
                have htail : t = front ++ needle ++ rest := by
                  simpa using (List.cons.inj hfront).2
                have hle := hfirst front rest htail
                simp only [List.length_cons]
                omega
          · rintro ⟨hcut, hfirst⟩
            cases head with
            | nil => exact absurd (by simpa using hcut) (hhere tail)
            | cons d head =>
                obtain ⟨rfl, htail⟩ := List.cons.inj hcut
                have hfound : splitOnce? needle t = some (head, tail) := by
                  refine ih.2 ⟨by simpa using htail, ?_⟩
                  intro front rest hfront
                  have hle := hfirst (c :: front) rest (by simp [hfront])
                  simpa using hle
                simp [hfound]

/-- A text that is cut nowhere has no occurrence. -/
theorem splitOnce?_eq_none_iff {needle t : Text} :
    splitOnce? needle t = none ↔ ∀ front rest, t ≠ front ++ needle ++ rest := by
  induction t with
  | nil =>
      unfold splitOnce?
      cases needle with
      | nil => simp
      | cons d needle => simp
  | cons c t ih =>
      unfold splitOnce?
      cases hafter : after? needle (c :: t) with
      | some found =>
          have htext := after?_eq_some_iff.1 hafter
          simp only [reduceCtorEq, false_iff, not_forall, not_not]
          exact ⟨[], found, by simpa using htext⟩
      | none =>
          have hhere : ∀ rest, c :: t ≠ needle ++ rest := by
            intro rest hrest
            rw [after?_eq_some_iff.2 hrest] at hafter
            cases hafter
          simp only [Option.map_eq_none_iff, ih]
          constructor
          · intro hnone front rest hfront
            cases front with
            | nil => exact hhere rest (by simpa using hfront)
            | cons d front => exact hnone front rest (by simpa using (List.cons.inj hfront).2)
          · intro hnone front rest hfront
            exact hnone (c :: front) rest (by simp [hfront])

/-- More text after it leaves the first occurrence where it is. -/
theorem splitOnce?_append {needle t head tail : Text}
    (h : splitOnce? needle t = some (head, tail)) (more : Text) :
    splitOnce? needle (t ++ more) = some (head, tail ++ more) := by
  obtain ⟨hcut, hfirst⟩ := splitOnce?_eq_some_iff.1 h
  refine splitOnce?_eq_some_iff.2 ⟨by simp [hcut], ?_⟩
  intro front rest hfront
  refine Nat.le_of_not_lt fun hshort => ?_
  -- An occurrence further to the left would end before the first one does.
  have hinside : front ++ needle <+: t := by
    refine List.prefix_of_prefix_length_le ⟨rest, hfront.symm⟩ (List.prefix_append t more) ?_
    have hlength := congrArg List.length hcut
    simp only [List.length_append] at hlength ⊢
    omega
  obtain ⟨left, hleft⟩ := hinside
  exact absurd (hfirst front left hleft.symm) (Nat.not_le_of_lt hshort)

/-- A text before it, without its first character, leaves the first occurrence where it is. -/
theorem splitOnce?_append_left {c : Char} {needle s t head tail : Text}
    (hneedle : needle.head? = some c) (hc : c ∉ s)
    (hsplit : splitOnce? needle t = some (head, tail)) :
    splitOnce? needle (s ++ t) = some (s ++ head, tail) := by
  obtain ⟨mark, rfl⟩ := List.head?_eq_some_iff.1 hneedle
  induction s with
  | nil => exact hsplit
  | cons d s ih =>
      rw [List.mem_cons, not_or] at hc
      have hnone : after? (c :: mark) (d :: (s ++ t)) = none := by
        refine Option.eq_none_iff_forall_ne_some.2 fun rest hrest => ?_
        exact hc.1 (List.cons.inj (after?_eq_some_iff.1 hrest)).1.symm
      rw [List.cons_append, splitOnce?, hnone, ih hc.2]
      rfl

/-- What comes before an ending is what makes up the text with it. -/
theorem before?_eq_some_iff {ending t front : Text} :
    before? ending t = some front ↔ t = front ++ ending := by
  have hreverse : before? ending t = (after? ending.reverse t.reverse).map List.reverse := rfl
  rw [hreverse, Option.map_eq_some_iff]
  constructor
  · rintro ⟨rest, hafter, rfl⟩
    rw [← List.reverse_reverse t, after?_eq_some_iff.1 hafter]
    simp
  · rintro rfl
    exact ⟨front.reverse, after?_eq_some_iff.2 (by simp), by simp⟩

/-! ## Induction on the occurrences of a character -/

/-- What holds of texts without a character, and of a text with it as soon as it holds of what
follows its first occurrence, holds of all texts. -/
@[elab_as_elim]
theorem cut_induction (c : Char) {motive : Text → Prop} (plain : ∀ t, c ∉ t → motive t)
    (cut : ∀ s t, c ∉ s → motive t → motive (s ++ c :: t)) (t : Text) : motive t := by
  induction hlength : t.length using Nat.strongRecOn generalizing t with
  | ind length ih =>
      by_cases hmem : c ∈ t
      · obtain ⟨s, rest, rfl, hs⟩ := List.eq_append_cons_of_mem hmem
        have hshorter : rest.length < length := by
          rw [← hlength, List.length_append, List.length_cons]
          omega
        exact cut s rest hs (ih rest.length hshorter rest rfl)
      · exact plain t hmem

/-! ## Pieces -/

/-- What stands before the first character of an occurrence goes into the first piece. -/
theorem pieces_append {c : Char} {needle s t piece : Text} {rest : List Text}
    (hneedle : needle.head? = some c) (hc : c ∉ s) (hpieces : pieces needle t = piece :: rest) :
    pieces needle (s ++ t) = (s ++ piece) :: rest := by
  obtain ⟨mark, rfl⟩ := List.head?_eq_some_iff.1 hneedle
  induction s with
  | nil => exact hpieces
  | cons d s ih =>
      rw [List.mem_cons, not_or] at hc
      have hrest : piecesFrom (c :: mark) 0 (s ++ t) = (s ++ piece) :: rest := ih hc.2
      have hnone : ¬(c :: mark).isPrefixOf (d :: (s ++ t)) = true := by
        simp [List.isPrefixOf, hc.1]
      rw [pieces, List.cons_append, piecesFrom, if_neg hnone, hrest]
      rfl

/-- Characters that belong to an occurrence already found are passed over. -/
theorem piecesFrom_append (needle s t : Text) :
    piecesFrom needle s.length (s ++ t) = pieces needle t := by
  induction s with
  | nil => rfl
  | cons c s ih => simpa [piecesFrom] using ih

/-- The first piece ends at the first occurrence, and the others are those of what follows it. -/
theorem pieces_eq {needle : Text} (hneedle : needle ≠ []) (t : Text) :
    pieces needle t =
      match splitOnce? needle t with
      | none => [t]
      | some (front, rest) => front :: pieces needle rest := by
  induction t with
  | nil => simp [pieces, piecesFrom, splitOnce?, hneedle]
  | cons c t ih =>
      by_cases hhere : needle.isPrefixOf (c :: t) = true
      · obtain ⟨rest, hrest⟩ := List.isPrefixOf_iff_prefix.1 hhere
        obtain ⟨d, mark, rfl⟩ := List.exists_cons_of_ne_nil hneedle
        have hafter : after? (d :: mark) (c :: t) = some rest := after?_eq_some_iff.2 hrest.symm
        have ht : t = mark ++ rest := (List.cons.inj hrest).2.symm
        rw [splitOnce?, hafter, pieces, piecesFrom, if_pos hhere, List.length_cons,
          Nat.add_sub_cancel, ht, piecesFrom_append]
      · have hafter : after? needle (c :: t) = none := by
          refine Option.eq_none_iff_forall_ne_some.2 fun rest hrest => hhere ?_
          exact List.isPrefixOf_iff_prefix.2 ⟨rest, (after?_eq_some_iff.1 hrest).symm⟩
        rw [splitOnce?, hafter, pieces, piecesFrom, if_neg hhere]
        rw [pieces] at ih
        rw [ih]
        cases splitOnce? needle t <;> rfl

theorem pieces_ne_nil {needle : Text} (hneedle : needle ≠ []) (t : Text) :
    pieces needle t ≠ [] := by
  rw [pieces_eq hneedle]
  split <;> exact List.cons_ne_nil _ _

theorem count_pos_iff {needle : Text} (hneedle : needle ≠ []) {t : Text} :
    0 < count needle t ↔ ∃ front rest, t = front ++ needle ++ rest := by
  rw [count, pieces_eq hneedle]
  cases hsplit : splitOnce? needle t with
  | none => simpa using splitOnce?_eq_none_iff.1 hsplit
  | some found =>
      obtain ⟨front, rest⟩ := found
      refine iff_of_true ?_ ⟨front, rest, append_of_splitOnce? hsplit⟩
      simpa [List.length_pos_iff] using pieces_ne_nil hneedle rest

/-- Two occurrences are counted exactly if two stand in the text without overlapping. -/
theorem two_le_count_iff {needle : Text} (hneedle : needle ≠ []) {t : Text} :
    2 ≤ count needle t ↔
      ∃ front middle rest, t = front ++ needle ++ middle ++ needle ++ rest := by
  cases hsplit : splitOnce? needle t with
  | none =>
      have hnone := splitOnce?_eq_none_iff.1 hsplit
      refine iff_of_false ?_ ?_
      · simp [count, pieces_eq hneedle t, hsplit]
      · rintro ⟨front, middle, rest, ht⟩
        exact hnone front (middle ++ needle ++ rest) (by simp [ht])
  | some found =>
      obtain ⟨before, after⟩ := found
      obtain ⟨hcut, hfirst⟩ := splitOnce?_eq_some_iff.1 hsplit
      have hcount : 2 ≤ count needle t ↔ 0 < count needle after := by
        rw [count, pieces_eq hneedle t, hsplit, count, List.length_cons]
        omega
      rw [hcount, count_pos_iff hneedle]
      constructor
      · rintro ⟨middle, rest, hafter⟩
        exact ⟨before, middle, rest, by rw [hcut, hafter]; simp⟩
      · rintro ⟨front, middle, rest, ht⟩
        -- The second occurrence begins where the first one of all has ended, or behind it.
        have hle := hfirst front (middle ++ needle ++ rest) (by simp [ht])
        have hsecond : before ++ needle ++ after =
            front ++ needle ++ middle ++ (needle ++ rest) := by
          rw [← hcut, ht]
          simp
        rcases List.append_eq_append_iff.1 hsecond with ⟨more, -, hafter⟩ | ⟨more, hbefore, hrest⟩
        · exact ⟨more, rest, by rw [hafter, List.append_assoc]⟩
        · have hlength := congrArg List.length hbefore
          simp only [List.length_append] at hlength
          obtain rfl : more = [] := List.eq_nil_of_length_eq_zero (by omega)
          exact ⟨[], rest, by simpa using hrest.symm⟩

/-! ## Runs at the end -/

/-- How many times a character stands in a row at the end of a text. -/
def endRun (c : Char) (t : Text) : Nat := (t.reverse.takeWhile (· = c)).length

@[simp]
theorem endRun_nil (c : Char) : endRun c [] = 0 := rfl

@[simp]
theorem endRun_append_self (c : Char) (t : Text) : endRun c (t ++ [c]) = endRun c t + 1 := by
  simp [endRun]

theorem endRun_append_of_ne {c d : Char} (hd : d ≠ c) (t : Text) : endRun c (t ++ [d]) = 0 := by
  simp [endRun, hd]

/-- A character that does not stand at the end has no run there. -/
theorem endRun_eq_zero_iff {c : Char} {t : Text} :
    endRun c t = 0 ↔ ∀ s, t ≠ s ++ [c] := by
  constructor
  · rintro h s rfl
    simp at h
  · intro h
    rcases List.eq_nil_or_concat t with rfl | ⟨s, d, rfl⟩
    · rfl
    · rw [List.concat_eq_append] at h ⊢
      exact endRun_append_of_ne (fun hd => h s (by rw [hd])) s

/-- A run ends at the last other character. -/
theorem endRun_append_cons_of_ne {c d : Char} (hd : d ≠ c) (s t : Text) :
    endRun c (s ++ d :: t) = endRun c t := by
  simp only [endRun, List.reverse_append, List.reverse_cons, List.append_assoc,
    List.takeWhile_append, List.length_reverse]
  split
  · rename_i hall
    simp [hd, hall]
  · rfl

/-- A run is as long as the text if the text is made up of it, and then goes on to the left. -/
theorem endRun_append (c : Char) (s t : Text) :
    endRun c (s ++ t) = if endRun c t = t.length then endRun c s + t.length else endRun c t := by
  by_cases hall : (t.reverse.takeWhile (· = c)).length = t.length
  · simp only [endRun, List.reverse_append, List.takeWhile_append, List.length_reverse, hall,
      if_true, List.length_append]
    omega
  · simp only [endRun, List.reverse_append, List.takeWhile_append, List.length_reverse, hall,
      if_false]

end Text
end Stencil
