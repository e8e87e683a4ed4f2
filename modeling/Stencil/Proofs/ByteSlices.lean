import Stencil.Proofs.Occurrence

namespace Stencil
namespace Text

/-!
# Slices by byte offsets

A slice of a text is asked for by byte offsets, and it exists only if they lie
within the text and at boundaries of characters.  Here slicing is checked: it
answers `none` where there is no slice.  Each slice is pinned down by what stands
before it, in it and behind it, so a computation with offsets can be followed on
the texts that the offsets measure.
-/

theorem byteSize_eq_zero_iff {t : Text} : byteSize t = 0 ↔ t = [] := by
  cases t with
  | nil => simp
  | cons c rest =>
      have hpos := Char.utf8Size_pos c
      simp only [byteSize_cons, List.cons_ne_nil, iff_false]
      omega

/-- The parts of a text before and after a byte offset, unless the offset lies behind the end or
inside a character. -/
def cutAt? : Nat → Text → Option (Text × Text)
  | 0, t => some ([], t)
  | _ + 1, [] => none
  | n + 1, c :: rest =>
      if c.utf8Size ≤ n + 1 then
        (cutAt? (n + 1 - c.utf8Size) rest).map fun (front, back) => (c :: front, back)
      else none

theorem cutAt?_eq_some_iff {n : Nat} {t front back : Text} :
    cutAt? n t = some (front, back) ↔ t = front ++ back ∧ byteSize front = n := by
  induction t generalizing n front with
  | nil =>
      cases n with
      | zero => simp +contextual [cutAt?, eq_comm]
      | succ n => simp +contextual [cutAt?]
  | cons c rest ih =>
      have hpos := Char.utf8Size_pos c
      cases n with
      | zero =>
          constructor
          · intro h
            obtain ⟨rfl, rfl⟩ := Prod.mk.inj (Option.some.inj h)
            exact ⟨rfl, rfl⟩
          · rintro ⟨hcut, hsize⟩
            cases front with
            | nil => rw [cutAt?, hcut, List.nil_append]
            | cons d front =>
                obtain ⟨rfl, -⟩ := List.cons.inj hcut
                rw [byteSize_cons] at hsize
                omega
      | succ n =>
          rw [cutAt?]
          constructor
          · intro h
            split at h
            · obtain ⟨⟨inside, after⟩, hfound, heq⟩ := Option.map_eq_some_iff.1 h
              obtain ⟨rfl, rfl⟩ := Prod.mk.inj heq
              obtain ⟨hcut, hsize⟩ := ih.1 hfound
              exact ⟨by rw [hcut, List.cons_append], by rw [byteSize_cons, hsize]; omega⟩
            · cases h
          · rintro ⟨hcut, hsize⟩
            cases front with
            | nil => cases hsize
            | cons d front =>
                obtain ⟨rfl, hrest⟩ := List.cons.inj hcut
                rw [byteSize_cons] at hsize
                rw [if_pos (by omega), ih.2 ⟨hrest, by omega⟩]
                rfl

/-- The text from a byte offset on. -/
def from? (start : Nat) (t : Text) : Option Text := (cutAt? start t).map Prod.snd

/-- The text up to a byte offset. -/
def upTo? (stop : Nat) (t : Text) : Option Text := (cutAt? stop t).map Prod.fst

/-- The text from one byte offset to another one. -/
def slice? (start stop : Nat) (t : Text) : Option Text := (upTo? stop t).bind (from? start)

theorem from?_eq_some_iff {start : Nat} {t back : Text} :
    from? start t = some back ↔ ∃ front, t = front ++ back ∧ byteSize front = start := by
  rw [from?, Option.map_eq_some_iff]
  constructor
  · rintro ⟨⟨front, _⟩, hcut, rfl⟩
    exact ⟨front, cutAt?_eq_some_iff.1 hcut⟩
  · rintro ⟨front, hcut⟩
    exact ⟨(front, back), cutAt?_eq_some_iff.2 hcut, rfl⟩

theorem upTo?_eq_some_iff {stop : Nat} {t front : Text} :
    upTo? stop t = some front ↔ ∃ back, t = front ++ back ∧ byteSize front = stop := by
  rw [upTo?, Option.map_eq_some_iff]
  constructor
  · rintro ⟨⟨_, back⟩, hcut, rfl⟩
    exact ⟨back, cutAt?_eq_some_iff.1 hcut⟩
  · rintro ⟨back, hcut⟩
    exact ⟨(front, back), cutAt?_eq_some_iff.2 hcut, rfl⟩

theorem slice?_eq_some_iff {start stop : Nat} {t s : Text} :
    slice? start stop t = some s ↔
      ∃ front back, t = front ++ s ++ back ∧ byteSize front = start ∧
        stop = start + byteSize s := by
  rw [slice?, Option.bind_eq_some_iff]
  constructor
  · rintro ⟨_, hstop, hstart⟩
    obtain ⟨back, rfl, hsize⟩ := upTo?_eq_some_iff.1 hstop
    obtain ⟨front, rfl, rfl⟩ := from?_eq_some_iff.1 hstart
    exact ⟨front, back, rfl, rfl, by rw [← hsize, byteSize_append]⟩
  · rintro ⟨front, back, rfl, rfl, rfl⟩
    exact ⟨front ++ s, upTo?_eq_some_iff.2 ⟨back, rfl, byteSize_append front s⟩,
      from?_eq_some_iff.2 ⟨front, rfl, rfl⟩⟩

@[simp]
theorem from?_append (front back : Text) : from? (byteSize front) (front ++ back) = some back :=
  from?_eq_some_iff.2 ⟨front, rfl, rfl⟩

@[simp]
theorem upTo?_append (front back : Text) : upTo? (byteSize front) (front ++ back) = some front :=
  upTo?_eq_some_iff.2 ⟨back, rfl, rfl⟩

/-- The end of a text is the slice from the offset that its size leaves. -/
theorem from?_of_isSuffix {back t : Text} (hback : back <:+ t) :
    from? (byteSize t - byteSize back) t = some back := by
  obtain ⟨front, rfl⟩ := hback
  rw [byteSize_append, Nat.add_sub_cancel]
  exact from?_append front back

/-- There is no slice behind the end of a text. -/
theorem le_of_slice? {start stop : Nat} {t s : Text} (h : slice? start stop t = some s) :
    start ≤ stop ∧ stop ≤ byteSize t := by
  obtain ⟨front, back, rfl, rfl, rfl⟩ := slice?_eq_some_iff.1 h
  simp only [byteSize_append]
  omega

/-- An offset inside a character cuts nothing. -/
example : upTo? 1 "é" = none := by decide

end Text
end Stencil
