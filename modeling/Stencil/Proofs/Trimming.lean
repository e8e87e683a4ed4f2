import Mathlib.Data.List.DropRight
import Stencil.Text.Blank

namespace Stencil
namespace Text

/-!
# Trimming

What is left of a text without the white space at its ends, described by its
first and its last character, and how trimming acts on joined texts.
-/

/-! ## The end of a text -/

theorem dropEndWhile_append_of_neg {p : Char → Bool} {c : Char} (hc : p c = false) (s : Text) :
    dropEndWhile p (s ++ [c]) = s ++ [c] := by
  induction s with
  | nil => simp [dropEndWhile, hc]
  | cons d s ih =>
      rw [List.cons_append, dropEndWhile, ih]
      cases s with
      | nil => rfl
      | cons e s => rfl

/-- A text that ends with nothing that could be dropped stays as it is. -/
theorem dropEndWhile_eq_self {p : Char → Bool} {t : Text}
    (ht : ∀ front c, t = front ++ [c] → p c = false) : dropEndWhile p t = t := by
  rcases List.eq_nil_or_concat t with rfl | ⟨front, c, rfl⟩
  · rfl
  · rw [List.concat_eq_append] at ht ⊢
    exact dropEndWhile_append_of_neg (ht front c rfl) front

/-- Only what follows a character that stays can be dropped. -/
theorem dropEndWhile_append_cons_of_neg {p : Char → Bool} {c : Char} (hc : p c = false)
    (s t : Text) : dropEndWhile p (s ++ c :: t) = s ++ c :: dropEndWhile p t := by
  induction s with
  | nil =>
      rw [List.nil_append, dropEndWhile]
      cases dropEndWhile p t with
      | nil => simp [hc]
      | cons d kept => rfl
  | cons d s ih =>
      rw [List.cons_append, dropEndWhile, ih]
      cases s with
      | nil => rfl
      | cons e s => rfl

/-- Nothing that could be dropped is left at the end. -/
theorem not_of_dropEndWhile {p : Char → Bool} {t front : Text} {c : Char}
    (hkept : dropEndWhile p t = front ++ [c]) : p c = false := by
  induction t generalizing front with
  | nil => simp [dropEndWhile] at hkept
  | cons d rest ih =>
      unfold dropEndWhile at hkept
      cases hrest : dropEndWhile p rest with
      | nil =>
          by_cases hd : p d = true
          · simp [hrest, hd] at hkept
          · have hlast : [d] = front ++ [c] := by simpa [hrest, hd] using hkept
            obtain rfl : d = c := by simpa using congrArg List.getLast? hlast
            simpa using hd
      | cons e kept =>
          rw [hrest] at hkept
          cases front with
          | nil => simp at hkept
          | cons f front => exact ih (hrest.trans (List.cons.inj hkept).2)

theorem exists_dropEndWhile (p : Char → Bool) (t : Text) :
    ∃ dropped, dropped.all p = true ∧ t = dropEndWhile p t ++ dropped := by
  induction t with
  | nil => exact ⟨[], rfl, rfl⟩
  | cons c rest ih =>
      obtain ⟨dropped, hdropped, hrest⟩ := ih
      unfold dropEndWhile
      cases hkept : dropEndWhile p rest with
      | nil =>
          rw [hkept, List.nil_append] at hrest
          by_cases hc : p c = true
          · exact ⟨c :: rest, by simp [hc, hrest, hdropped], by simp [hc]⟩
          · exact ⟨rest, by rw [hrest, hdropped], by simp [hc]⟩
      | cons d kept => exact ⟨dropped, hdropped, by rw [hrest, hkept]; rfl⟩

theorem dropEndWhile_eq_nil {p : Char → Bool} {t : Text} (ht : ∀ c ∈ t, p c = true) :
    dropEndWhile p t = [] := by
  induction t with
  | nil => rfl
  | cons c rest ih =>
      rw [List.forall_mem_cons] at ht
      rw [dropEndWhile, ih ht.2, if_pos ht.1]

/-- What is dropped goes with what would be dropped before it. -/
theorem dropEndWhile_append_of_pos {p : Char → Bool} (s : Text) {t : Text}
    (ht : ∀ c ∈ t, p c = true) : dropEndWhile p (s ++ t) = dropEndWhile p s := by
  induction s with
  | nil => rw [List.nil_append, dropEndWhile_eq_nil ht, dropEndWhile]
  | cons c s ih => rw [List.cons_append, dropEndWhile, dropEndWhile, ih]

/-! ## Both ends -/

/-- A text that begins and ends with other characters than white space is trimmed. -/
theorem trim_eq_self {t : Text} (hfirst : ∃ c rest, t = c :: rest ∧ isWhite c = false)
    (hlast : ∃ front c, t = front ++ [c] ∧ isWhite c = false) : t.trim = t := by
  have hstart : t.trimStart = t := by
    obtain ⟨c, rest, rfl, hc⟩ := hfirst
    simp [trimStart, hc]
  obtain ⟨front, c, rfl, hc⟩ := hlast
  rw [trim, hstart]
  exact dropEndWhile_append_of_neg hc front

/-- What is left after trimming does not end with white space. -/
theorem not_white_of_trim {t front : Text} {c : Char} (htrim : t.trim = front ++ [c]) :
    isWhite c = false :=
  not_of_dropEndWhile htrim

/-- A trimmed text does not end with white space. -/
theorem last_of_trim_eq_self {t : Text} (htrim : t.trim = t) (hne : t ≠ []) :
    ∃ front c, t = front ++ [c] ∧ isWhite c = false := by
  rcases List.eq_nil_or_concat t with rfl | ⟨front, c, hlast⟩
  · exact absurd rfl hne
  · rw [List.concat_eq_append] at hlast
    exact ⟨front, c, hlast, not_white_of_trim (htrim.trans hlast)⟩

/-- What trimming takes from a text is white space. -/
theorem exists_trim (t : Text) :
    ∃ before after, isBlank before = true ∧ isBlank after = true ∧
      t = before ++ t.trim ++ after := by
  obtain ⟨after, hafter, hend⟩ := exists_dropEndWhile isWhite t.trimStart
  refine ⟨t.takeWhile isWhite, after, List.all_takeWhile, hafter, ?_⟩
  rw [List.append_assoc]
  exact (List.takeWhile_append_dropWhile (p := isWhite)).symm.trans
    (congrArg (t.takeWhile isWhite ++ ·) hend)

/-! ## The start of a text -/

theorem trimStart_cons_of_not_white {c : Char} (hc : isWhite c = false) (rest : Text) :
    trimStart (c :: rest) = c :: rest := by
  simp [trimStart, hc]

/-- White space before a text goes with the white space at its start. -/
theorem trimStart_blank_append {blank : Text} (hblank : isBlank blank = true) (t : Text) :
    trimStart (blank ++ t) = trimStart t :=
  List.dropWhile_append_of_pos (List.all_eq_true.1 hblank)

theorem trimStart_of_isBlank {blank : Text} (hblank : isBlank blank = true) :
    trimStart blank = [] := by
  have htrim := trimStart_blank_append hblank []
  rwa [List.append_nil] at htrim

/-- A text is the white space at its start and the rest. -/
theorem isInfix_trim (t : Text) : t.trim <:+: t := by
  obtain ⟨before, after, -, -, hcut⟩ := exists_trim t
  exact ⟨before, after, hcut.symm⟩

theorem exists_trimStart (t : Text) :
    ∃ blank, isBlank blank = true ∧ t = blank ++ trimStart t :=
  ⟨t.takeWhile isWhite, List.all_takeWhile, List.takeWhile_append_dropWhile.symm⟩

theorem isBlank_of_trimStart {t : Text} (htrim : trimStart t = []) : isBlank t = true := by
  obtain ⟨blank, hblank, hblanks⟩ := exists_trimStart t
  rw [htrim, List.append_nil] at hblanks
  rwa [hblanks]

theorem mem_trimStart {t : Text} {c : Char} (hmem : c ∈ t) (hc : isWhite c = false) :
    c ∈ trimStart t := by
  induction t with
  | nil => cases hmem
  | cons d rest ih =>
      unfold trimStart
      by_cases hd : isWhite d = true
      · rw [List.dropWhile_cons_of_pos hd]
        rcases List.mem_cons.1 hmem with rfl | hrest
        · rw [hc] at hd
          cases hd
        · exact ih hrest
      · rwa [List.dropWhile_cons_of_neg hd]

/-- What follows a text does not matter for the white space at its start. -/
theorem trimStart_append_of_mem {t : Text} {c : Char} (hmem : c ∈ t) (hc : isWhite c = false)
    (more : Text) : trimStart (t ++ more) = trimStart t ++ more ∧ trimStart t ≠ [] := by
  have hne : trimStart t ≠ [] := List.ne_nil_of_mem (mem_trimStart hmem hc)
  have hempty : (t.dropWhile isWhite).isEmpty = false := by simpa [trimStart] using hne
  exact ⟨by simp [trimStart, List.dropWhile_append, hempty], hne⟩

theorem trimStart_append_cons {c : Char} (hc : isWhite c = false) (s t : Text) :
    trimStart (s ++ c :: t) = trimStart s ++ c :: t := by
  induction s with
  | nil => exact trimStart_cons_of_not_white hc t
  | cons d s ih =>
      unfold trimStart at ih ⊢
      by_cases hd : isWhite d = true
      · rw [List.cons_append, List.dropWhile_cons_of_pos hd, List.dropWhile_cons_of_pos hd, ih]
      · rw [List.cons_append, List.dropWhile_cons_of_neg hd, List.dropWhile_cons_of_neg hd,
          List.cons_append]

theorem trimStart_trimStart (t : Text) : trimStart (trimStart t) = trimStart t :=
  List.dropWhile_idempotent isWhite t

/-! ## Trimming twice -/

theorem trimEnd_trimEnd (t : Text) : trimEnd (trimEnd t) = trimEnd t :=
  dropEndWhile_eq_self fun _ _ hlast => not_of_dropEndWhile hlast

/-- The order of trimming the two ends does not matter. -/
theorem trimStart_trimEnd (t : Text) : trimStart (trimEnd t) = trim t := by
  induction t with
  | nil => rfl
  | cons c rest ih =>
      by_cases hc : isWhite c = true
      · have hstart : trim (c :: rest) = trim rest := by
          rw [trim, trim, trimStart, List.dropWhile_cons_of_pos hc, trimStart]
        rw [hstart, ← ih, trimEnd, dropEndWhile]
        cases hrest : dropEndWhile isWhite rest with
        | nil =>
            rw [if_pos hc, trimEnd, hrest]
        | cons d kept =>
            show trimStart (c :: d :: kept) = _
            rw [trimStart, List.dropWhile_cons_of_pos hc, trimEnd, hrest]
            rfl
      · have hwhite : isWhite c = false := by simpa using hc
        have hend := dropEndWhile_append_cons_of_neg hwhite [] rest
        rw [List.nil_append, List.nil_append] at hend
        rw [trim, trimStart_cons_of_not_white hwhite, trimEnd, hend,
          trimStart_cons_of_not_white hwhite]

theorem trimStart_trim (t : Text) : trimStart (trim t) = trim t := by
  rw [← trimStart_trimEnd, trimStart_trimStart]

theorem trim_trim (t : Text) : t.trim.trim = t.trim := by
  rw [trim, trimStart_trim, trim, trimEnd_trimEnd]

theorem trim_trimStart (t : Text) : (trimStart t).trim = t.trim := by
  rw [trim, trimStart_trimStart, trim]

theorem trim_trimEnd (t : Text) : (trimEnd t).trim = t.trim := by
  rw [← trimStart_trimEnd, trimEnd_trimEnd, trimStart_trimEnd]

/-- A text is blank exactly if trimming leaves nothing of it. -/
theorem isBlank_iff {t : Text} : t.isBlank = true ↔ t.trim.isEmpty = true := by
  rw [List.isEmpty_iff]
  constructor
  · intro hblank
    rw [trim, trimStart_of_isBlank hblank]
    rfl
  · intro htrim
    rw [← trimStart_trimEnd] at htrim
    have hend := isBlank_of_trimStart htrim
    obtain ⟨dropped, hdropped, hcut⟩ := exists_dropEndWhile isWhite t
    rw [hcut, isBlank, List.all_append, Bool.and_eq_true]
    exact ⟨hend, hdropped⟩

/-- A character between two texts keeps them from being trimmed on its side. -/
theorem trim_append_cons {c : Char} (hc : isWhite c = false) (s t : Text) :
    (s ++ c :: t).trim = trimStart s ++ c :: trimEnd t := by
  rw [trim, trimStart_append_cons hc, trimEnd, dropEndWhile_append_cons_of_neg hc, trimEnd]

/-- White space around a text is trimmed. -/
theorem trim_blank_append {before after : Text} (hbefore : isBlank before = true)
    (hafter : isBlank after = true) (t : Text) : (before ++ t ++ after).trim = t.trim := by
  have hend : trimEnd (before ++ t ++ after) = trimEnd (before ++ t) :=
    dropEndWhile_append_of_pos (before ++ t) (List.all_eq_true.1 hafter)
  rw [← trimStart_trimEnd, hend, trimStart_trimEnd, trim, trimStart_blank_append hbefore, trim]

theorem length_trim_le (t : Text) : t.trim.length ≤ t.length := by
  obtain ⟨before, after, -, -, hcut⟩ := exists_trim t
  have hlength := congrArg List.length hcut
  simp only [List.length_append] at hlength
  omega

end Text
end Stencil
