import Mathlib.Data.List.DropRight
import Stencil.Proofs.Occurrence
import Stencil.Proofs.SourceLines

namespace Stencil

/-!
# Lines and columns of bytes

A position counts the line feeds before a byte, and the bytes after the last of
them.  Here both are read off the bytes of the UTF-8 form (`Position.ofBytes`),
so a position may lie inside a character.  It is the position that is found by
going through the characters (`Position.ofOffset_eq`), and it leads back to its
byte, or to the byte before it on its line (`Position.byteBefore?_ofBytes`).
-/

namespace Text

/-! ## Bytes -/

/-- The bytes of the UTF-8 form of a text. -/
def utf8 (t : Text) : List UInt8 := t.flatMap String.utf8EncodeChar

/-- The byte of a line feed. -/
def feedByte : UInt8 := 10

theorem utf8_cons (c : Char) (rest : Text) :
    utf8 (c :: rest) = String.utf8EncodeChar c ++ utf8 rest := rfl

theorem utf8_append_feed (s t : Text) : utf8 (s ++ '\n' :: t) = utf8 s ++ feedByte :: utf8 t :=
  List.flatMap_append

theorem length_utf8 (t : Text) : (utf8 t).length = byteSize t := by
  induction t with
  | nil => rfl
  | cons c rest ih =>
      rw [utf8_cons, List.length_append, ih, String.length_utf8EncodeChar, byteSize_cons]

/-- The bytes of a character beyond ASCII lie beyond ASCII too. -/
theorem le_of_mem_utf8EncodeChar {c : Char} {b : UInt8} (hb : b ∈ String.utf8EncodeChar c)
    (hc : 128 ≤ c.toNat) : 128 ≤ b.toNat := by
  have hlarge : ¬c.val.toNat ≤ 127 := Nat.not_le.2 hc
  unfold String.utf8EncodeChar at hb
  simp only [if_neg hlarge] at hb
  split at hb
  · simp only [List.mem_cons, List.not_mem_nil, or_false] at hb
    rcases hb with rfl | rfl <;> rw [UInt8.toNat_ofNat'] <;> omega
  · split at hb
    · simp only [List.mem_cons, List.not_mem_nil, or_false] at hb
      rcases hb with rfl | rfl | rfl <;> rw [UInt8.toNat_ofNat'] <;> omega
    · simp only [List.mem_cons, List.not_mem_nil, or_false] at hb
      rcases hb with rfl | rfl | rfl | rfl <;> rw [UInt8.toNat_ofNat'] <;> omega

/-- The byte of a line feed occurs in no other character. -/
theorem eq_feed_of_mem {c : Char} (hmem : feedByte ∈ String.utf8EncodeChar c) : c = '\n' := by
  by_cases hc : 128 ≤ c.toNat
  · exact absurd (le_of_mem_utf8EncodeChar hmem hc) (by decide)
  · have hsmall : c.val.toNat ≤ 127 := by
      show c.toNat ≤ 127
      omega
    unfold String.utf8EncodeChar at hmem
    rw [if_pos hsmall, List.mem_singleton, ← UInt8.toNat_inj, UInt8.toNat_ofNat',
      Nat.mod_eq_of_lt (by omega)] at hmem
    exact Char.ext (UInt32.toNat_inj.1 hmem.symm)

theorem feedByte_not_mem_utf8 {s : Text} (hs : '\n' ∉ s) : feedByte ∉ utf8 s := by
  intro hmem
  obtain ⟨c, hc, hbyte⟩ := List.mem_flatMap.1 hmem
  exact hs (eq_feed_of_mem hbyte ▸ hc)

end Text

namespace Position

open Stencil.Text (utf8 feedByte byteSize)

/-! ## Positions -/

/-- The position behind these bytes of a text: lines count from one, and the column is the number
of bytes after the last line feed. -/
def ofBytes (before : List UInt8) : Position :=
  ⟨before.count feedByte + 1, (before.rtakeWhile (· ≠ feedByte)).length⟩

/-- The position after one more byte. -/
def next (position : Position) (b : UInt8) : Position :=
  if b = feedByte then ⟨position.line + 1, 0⟩ else ⟨position.line, position.column + 1⟩

/-- Positions are counted byte by byte. -/
theorem foldl_next_eq_ofBytes (before : List UInt8) :
    before.foldl next ⟨1, 0⟩ = ofBytes before := by
  induction before using List.reverseRecOn with
  | nil => rfl
  | append_singleton before b ih =>
      rw [List.foldl_concat, ih, next, ofBytes, ofBytes, List.count_append, List.rtakeWhile_concat]
      by_cases hb : b = feedByte
      · simp [hb]
      · simp [hb]

/-- Bytes on one line move the column only. -/
theorem foldl_next_of_not_mem {before : List UInt8} (hfeed : feedByte ∉ before)
    (start : Position) :
    before.foldl next start = ⟨start.line, start.column + before.length⟩ := by
  induction before generalizing start with
  | nil => rfl
  | cons b before ih =>
      rw [List.mem_cons, not_or] at hfeed
      rw [List.foldl_cons, ih hfeed.2, next, if_neg (Ne.symm hfeed.1), List.length_cons,
        Nat.add_comm before.length, ← Nat.add_assoc]

/-- Going through the characters counts their bytes, those of a character that is cut included. -/
theorem advance_eq_foldl (start : Position) (t : Text) (offset : Nat) :
    advance start t offset = ((utf8 t).take offset).foldl next start := by
  induction t generalizing start offset with
  | nil =>
      rw [advance, utf8, List.flatMap_nil, List.take_nil]
      rfl
  | cons c rest ih =>
      rw [advance, Text.utf8_cons]
      by_cases hzero : offset = 0
      · rw [if_pos hzero, hzero]
        rfl
      have hsize := String.length_utf8EncodeChar c
      rw [if_neg hzero]
      by_cases hinside : offset < c.utf8Size
      · -- A line feed is a single byte, so the character that is cut is none.
        have hfeed : feedByte ∉ (String.utf8EncodeChar c).take offset := by
          intro hmem
          obtain rfl := Text.eq_feed_of_mem (List.mem_of_mem_take hmem)
          have hone : '\n'.utf8Size = 1 := by decide
          omega
        rw [if_pos hinside, List.take_append_of_le_length (by omega),
          foldl_next_of_not_mem hfeed, List.length_take, Nat.min_eq_left (by omega)]
      · rw [if_neg hinside, List.take_append, List.take_of_length_le (by omega), hsize,
          List.foldl_append]
        split
        · rename_i hc
          subst hc
          exact ih _ _
        · rename_i hc
          have hfeed : feedByte ∉ String.utf8EncodeChar c := fun hmem =>
            hc (Text.eq_feed_of_mem hmem)
          rw [foldl_next_of_not_mem hfeed, hsize]
          exact ih _ _

/-- The position of a byte counts the line feeds before it, and the bytes after the last of them. -/
theorem ofOffset_eq (source : Text) (offset : Nat) :
    ofOffset source offset = ofBytes ((utf8 source).take offset) := by
  rw [ofOffset, advance_eq_foldl, foldl_next_eq_ofBytes]

/-! ## Back to the byte -/

theorem ofBytes_of_not_mem {before : List UInt8} (hfeed : feedByte ∉ before) :
    ofBytes before = ⟨1, before.length⟩ := by
  rw [← foldl_next_eq_ofBytes, foldl_next_of_not_mem hfeed, Nat.zero_add]

/-- The position on the next line but with the same column. -/
def below (position : Position) : Position := ⟨position.line + 1, position.column⟩

@[simp]
theorem column_below (position : Position) : position.below.column = position.column := rfl

theorem foldl_next_below (before : List UInt8) (start : Position) :
    before.foldl next start.below = (before.foldl next start).below := by
  induction before generalizing start with
  | nil => rfl
  | cons b before ih =>
      rw [List.foldl_cons, List.foldl_cons, ← ih]
      congr 1
      unfold next
      split <;> rfl

/-- Positions behind the first line are those of the rest, with one more line above. -/
theorem ofBytes_append_feed {before : List UInt8} (hfeed : feedByte ∉ before)
    (after : List UInt8) : ofBytes (before ++ feedByte :: after) = (ofBytes after).below := by
  rw [← foldl_next_eq_ofBytes, ← foldl_next_eq_ofBytes, ← foldl_next_below, List.foldl_append,
    foldl_next_of_not_mem hfeed, List.foldl_cons]
  rfl

theorem column_ofBytes_le (before : List UInt8) : (ofBytes before).column ≤ before.length :=
  (List.rtakeWhile_suffix _ before).length_le

theorem byteBefore?_below {s : Text} (hs : '\n' ∉ s) (t : Text) {position : Position}
    (hline : 0 < position.line) :
    byteBefore? (s ++ '\n' :: t) position.below =
      (byteBefore? t position).map (byteSize s + 1 + ·) := by
  obtain ⟨line, column⟩ := position
  obtain ⟨index, rfl⟩ : ∃ index, line = index + 1 := Nat.exists_eq_add_one.2 hline
  have hfeed : '\n'.utf8Size = 1 := by decide
  simp only [byteBefore?, below, Text.lines_append_feed hs, List.getElem?_cons_succ]
  cases (Text.lines t)[index]? with
  | none => simp [hfeed, Nat.add_assoc]
  | some line => simp [hfeed, Nat.add_assoc]

theorem byteBefore?_first {source first : Text} {others : List Text}
    (hlines : Text.lines source = first :: others) {column : Nat}
    (hcolumn : column ≤ byteSize first) :
    byteBefore? source ⟨1, column⟩ = some (column - 1) := by
  have hle : column - 1 ≤ byteSize first := by omega
  simp [byteBefore?, hlines, hle]

/-- The position of a byte leads back to the byte if it is the first one of its line, and to the
byte before it otherwise. -/
theorem byteBefore?_ofBytes {source : Text} {offset : Nat} (hoffset : offset ≤ byteSize source) :
    byteBefore? source (ofBytes ((utf8 source).take offset)) =
      some (if (ofBytes ((utf8 source).take offset)).column = 0 then offset else offset - 1) := by
  have hzero : ∀ n : Nat, (if n = 0 then n else n - 1) = n - 1 := fun n => by
    split <;> omega
  induction source using Text.cut_induction '\n' generalizing offset with
  | plain t ht =>
      have hfeed : feedByte ∉ (utf8 t).take offset := fun hmem =>
        Text.feedByte_not_mem_utf8 ht (List.mem_of_mem_take hmem)
      rw [ofBytes_of_not_mem hfeed, List.length_take, Text.length_utf8, Nat.min_eq_left hoffset,
        hzero]
      by_cases hne : t = []
      · subst hne
        obtain rfl : offset = 0 := Nat.le_zero.1 hoffset
        rfl
      · exact byteBefore?_first (Text.lines_of_not_mem ht hne) hoffset
  | cut s t hs ih =>
      have hone : '\n'.utf8Size = 1 := by decide
      rw [Text.byteSize_append, Text.byteSize_cons, hone] at hoffset
      by_cases hfirst : offset ≤ byteSize s
      · have hfeed : feedByte ∉ (utf8 s).take offset := fun hmem =>
          Text.feedByte_not_mem_utf8 hs (List.mem_of_mem_take hmem)
        have hlength : offset ≤ (utf8 s).length := by rwa [Text.length_utf8]
        rw [Text.utf8_append_feed, List.take_append_of_le_length hlength,
          ofBytes_of_not_mem hfeed, List.length_take, Nat.min_eq_left hlength, hzero]
        refine byteBefore?_first (Text.lines_append_feed hs t) ?_
        rw [Text.byteSize_append]
        omega
      · obtain ⟨later, rfl⟩ : ∃ later, offset = (utf8 s).length + (later + 1) := by
          rw [Text.length_utf8]
          exact ⟨offset - byteSize s - 1, by omega⟩
        rw [Text.length_utf8] at hoffset
        have hposition := ofBytes_append_feed (Text.feedByte_not_mem_utf8 hs) ((utf8 t).take later)
        have hcolumn := column_ofBytes_le ((utf8 t).take later)
        rw [List.length_take] at hcolumn
        rw [Text.utf8_append_feed, List.take_length_add_append, List.take_succ_cons, hposition,
          byteBefore?_below hs t (Nat.succ_pos _), ih (by omega), Text.length_utf8, column_below,
          Option.map_some, Option.some.injEq]
        -- The byte is counted from behind the line above.
        split <;> omega

end Position
end Stencil
