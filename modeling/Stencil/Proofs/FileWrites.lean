import Stencil.Files.Output
import Stencil.Proofs.Locations

namespace Stencil

/-!
# Writing files

Files that are put into a tree, one after the other, stay where none of them is put
in the place of another one, and to put the same files again changes nothing.
Writing a file is putting it where its path leads to, as long as no directory is
missing (`exists_put_of_write`, `write_of_place`).
-/

deriving instance DecidableEq for FileTree

namespace FileTree

/-! ## Putting entries -/

theorem find?_putIn_self (location : Location) (entry : Entry) (entries : List (Location × Entry)) :
    (putIn location entry entries).find? (fun other => other.1 = location) =
      some (location, entry) := by
  induction entries with
  | nil => simp [putIn]
  | cons first rest ih =>
      by_cases hfirst : first.1 = location
      · simp [putIn, hfirst]
      · simp [putIn, hfirst, ih]

theorem find?_putIn_of_ne {location other : Location} (hne : other ≠ location) (entry : Entry)
    (entries : List (Location × Entry)) :
    (putIn location entry entries).find? (fun found => found.1 = other) =
      entries.find? fun found => found.1 = other := by
  induction entries with
  | nil => simp [putIn, Ne.symm hne]
  | cons first rest ih =>
      obtain ⟨place, old⟩ := first
      by_cases hplace : place = location
      · rw [putIn, if_pos hplace]
        simp [hplace, Ne.symm hne]
      · rw [putIn, if_neg hplace, List.find?_cons, List.find?_cons, ih]

variable {tree : FileTree} {location : Location}

theorem get?_put_self (hne : location ≠ []) (entry : Entry) :
    (tree.put location entry).get? location = some entry := by
  unfold get? put
  rw [if_neg (by simp [hne]), find?_putIn_self]
  rfl

theorem get?_put_of_ne {other : Location} (hne : other ≠ location) (entry : Entry) :
    (tree.put location entry).get? other = tree.get? other := by
  unfold get? put
  rw [find?_putIn_of_ne hne]

theorem ne_nil_of_isDirectory_eq_false (hfree : tree.isDirectory location = false) :
    location ≠ [] := by
  rintro rfl
  cases hfree

/-- A file in a place that is no directory leaves the directories as they are. -/
theorem isDirectory_put_file (hfree : tree.isDirectory location = false) (bytes : ByteArray)
    (other : Location) :
    (tree.put location (.file bytes)).isDirectory other = tree.isDirectory other := by
  by_cases hother : other = location
  · subst hother
    rw [hfree]
    unfold isDirectory
    rw [get?_put_self (ne_nil_of_isDirectory_eq_false hfree)]
  · unfold isDirectory
    rw [get?_put_of_ne hother]

theorem putIn_of_find? {location : Location} {entry : Entry} {entries : List (Location × Entry)}
    (hfind : entries.find? (fun other => other.1 = location) = some (location, entry)) :
    putIn location entry entries = entries := by
  induction entries with
  | nil => cases hfind
  | cons first rest ih =>
      obtain ⟨other, old⟩ := first
      by_cases hother : other = location
      · subst hother
        rw [List.find?_cons_of_pos (by simp), Option.some.injEq] at hfind
        rw [putIn, if_pos rfl, hfind]
      · rw [List.find?_cons_of_neg (by simpa using hother)] at hfind
        rw [putIn, if_neg hother, ih hfind]

/-- A file that is there already is put in its own place. -/
theorem put_of_get? {bytes : ByteArray}
    (hget : tree.get? location = some (.file bytes)) : tree.put location (.file bytes) = tree := by
  unfold get? at hget
  by_cases hroot : location = []
  · simp [hroot] at hget
  · rw [if_neg (by simp [hroot])] at hget
    obtain ⟨⟨other, entry⟩, hfind, rfl⟩ := Option.map_eq_some_iff.1 hget
    have hsame := List.find?_some hfind
    simp only [decide_eq_true_eq] at hsame
    subst hsame
    unfold put
    rw [putIn_of_find? hfind]

theorem putIn_putIn_self (location : Location) (first second : Entry)
    (entries : List (Location × Entry)) :
    putIn location second (putIn location first entries) = putIn location second entries := by
  induction entries with
  | nil => simp [putIn]
  | cons entry rest ih =>
      obtain ⟨other, old⟩ := entry
      by_cases hother : other = location
      · simp [putIn, hother]
      · simp [putIn, hother, ih]

/-- The order in which two entries are put does not matter if one of the places is taken. -/
theorem putIn_comm {other : Location} (hne : other ≠ location) (first second : Entry)
    {entries : List (Location × Entry)} (hmem : location ∈ entries.map Prod.fst) :
    putIn other second (putIn location first entries) =
      putIn location first (putIn other second entries) := by
  induction entries with
  | nil => cases hmem
  | cons entry rest ih =>
      obtain ⟨place, old⟩ := entry
      by_cases hplace : place = location
      · subst hplace
        simp [putIn, Ne.symm hne]
      · have hrest : location ∈ rest.map Prod.fst := by
          simpa [Ne.symm hplace] using hmem
        by_cases hother : place = other
        · subst hother
          simp [putIn, hne]
        · simp [putIn, hplace, hother, ih hrest]

theorem mem_putIn {other : Location} {entry : Entry} {entries : List (Location × Entry)} :
    other ∈ (putIn location entry entries).map Prod.fst ↔
      other = location ∨ other ∈ entries.map Prod.fst := by
  induction entries with
  | nil => simp [putIn]
  | cons first rest ih =>
      obtain ⟨place, old⟩ := first
      by_cases hplace : place = location
      · simp [putIn, hplace]
      · rw [putIn, if_neg hplace, List.map_cons, List.mem_cons, ih, List.map_cons, List.mem_cons]
        exact or_left_comm

/-! ## Putting files one after the other -/

/-- Puts files in places, one after the other. -/
def putFiles (tree : FileTree) (items : List (Location × ByteArray)) : FileTree :=
  items.foldl (fun tree item => tree.put item.1 (.file item.2)) tree

theorem putFiles_cons (tree : FileTree) (item : Location × ByteArray)
    (rest : List (Location × ByteArray)) :
    tree.putFiles (item :: rest) = (tree.put item.1 (.file item.2)).putFiles rest := rfl

theorem get?_putFiles_of_not_mem {items : List (Location × ByteArray)}
    (hitems : ∀ item ∈ items, item.1 ≠ location) :
    (tree.putFiles items).get? location = tree.get? location := by
  induction items generalizing tree with
  | nil => rfl
  | cons first rest ih =>
      rw [List.forall_mem_cons] at hitems
      rw [putFiles_cons, ih hitems.2, get?_put_of_ne (Ne.symm hitems.1)]

/-- In the place of a file there is one of the files that are put there. -/
theorem exists_get?_putFiles {items : List (Location × ByteArray)}
    (hplaces : ∀ item ∈ items, item.1 ≠ []) {item : Location × ByteArray} (hitem : item ∈ items) :
    ∃ other ∈ items, other.1 = item.1 ∧
      (tree.putFiles items).get? item.1 = some (.file other.2) := by
  induction items generalizing tree item with
  | nil => cases hitem
  | cons first rest ih =>
      rw [List.forall_mem_cons] at hplaces
      rw [putFiles_cons]
      by_cases hlater : ∃ later ∈ rest, later.1 = item.1
      · -- A file that is put later is the one that is there in the end.
        obtain ⟨later, hmem, hplace⟩ := hlater
        obtain ⟨other, hother, hsame, hget⟩ := ih hplaces.2 hmem
        rw [hplace] at hsame hget
        exact ⟨other, List.mem_cons_of_mem _ hother, hsame, hget⟩
      · have hfirst : first = item := by
          rcases List.mem_cons.1 hitem with rfl | hmem
          · rfl
          · exact absurd ⟨item, hmem, rfl⟩ hlater
        subst hfirst
        refine ⟨first, List.mem_cons_self, rfl, ?_⟩
        rw [get?_putFiles_of_not_mem fun later hmem heq => hlater ⟨later, hmem, heq⟩,
          get?_put_self hplaces.1]

theorem mem_putFiles {items : List (Location × ByteArray)}
    (hmem : location ∈ tree.entries.map Prod.fst) :
    location ∈ (tree.putFiles items).entries.map Prod.fst := by
  induction items generalizing tree with
  | nil => exact hmem
  | cons first rest ih => exact ih (mem_putIn.2 (.inr hmem))

/-- A file does not matter if another one is put in its place. -/
theorem putFiles_put_of_mem {items : List (Location × ByteArray)} {entry : Entry}
    (hitems : ∃ item ∈ items, item.1 = location) (hmem : location ∈ tree.entries.map Prod.fst) :
    (tree.put location entry).putFiles items = tree.putFiles items := by
  induction items generalizing tree with
  | nil => simp at hitems
  | cons first rest ih =>
      rw [putFiles_cons, putFiles_cons]
      by_cases hfirst : first.1 = location
      · unfold put
        rw [hfirst, putIn_putIn_self]
      · have hrest : ∃ item ∈ rest, item.1 = location := by
          simpa [hfirst] using hitems
        have hcomm : (tree.put location entry).put first.1 (.file first.2) =
            (tree.put first.1 (.file first.2)).put location entry := by
          unfold put
          rw [putIn_comm hfirst _ _ hmem]
        rw [hcomm, ih hrest (mem_putIn.2 (.inr hmem))]

/-- The same files can be put once more without an effect. -/
theorem putFiles_putFiles {items : List (Location × ByteArray)}
    (hplaces : ∀ item ∈ items, item.1 ≠ []) :
    (tree.putFiles items).putFiles items = tree.putFiles items := by
  induction items generalizing tree with
  | nil => rfl
  | cons first rest ih =>
      rw [List.forall_mem_cons] at hplaces
      rw [putFiles_cons tree, putFiles_cons]
      have hmem := @mem_putFiles (tree.put first.1 (.file first.2)) first.1 rest
        (mem_putIn.2 (.inl rfl))
      by_cases hlater : ∃ item ∈ rest, item.1 = first.1
      · rw [putFiles_put_of_mem hlater hmem, ih hplaces.2]
      · have hthere : ((tree.put first.1 (.file first.2)).putFiles rest).get? first.1 =
            some (.file first.2) := by
          rw [get?_putFiles_of_not_mem fun item hitem heq => hlater ⟨item, hitem, heq⟩,
            get?_put_self hplaces.1]
        rw [put_of_get? hthere, ih hplaces.2]

/-! ## Writing -/

theorem write?_eq_some_iff {tree after : FileTree} {path : Text} {bytes : ByteArray} :
    tree.write? path bytes = some after ↔
      ∃ location, tree.locate? path = some location ∧ tree.isDirectory location = false ∧
        after = tree.put location (.file bytes) := by
  unfold write?
  cases tree.locate? path with
  | none => simp
  | some location =>
      cases hdirectory : tree.isDirectory location with
      | true => simp [hdirectory]
      | false =>
          simp only [hdirectory, Bool.false_eq_true, if_false, Option.some.injEq, exists_eq_left',
            true_and]
          exact eq_comm

end FileTree

namespace OutputFile

variable {tree after : FileTree} {file : OutputFile} {outcome : WriteOutcome}

theorem bytes_inj {other : OutputFile} :
    file.bytes = other.bytes ↔ file.content = other.content := by
  unfold bytes
  rw [← String.ofList_inj]
  exact String.toByteArray_inj

/-- A tree with the directories of a file, and whether all of them could be made. -/
def withDirectories (file : OutputFile) (tree : FileTree) : FileTree × Bool :=
  match Path.parent? file.path with
  | some directory => tree.makeDirectories directory
  | none => (tree, true)

/-- The directories of a file are made before it is put there. -/
theorem store_eq (file : OutputFile) (tree : FileTree) :
    file.store tree =
      match (file.withDirectories tree).2,
        (file.withDirectories tree).1.write? file.path file.bytes with
      | true, some tree => (tree, .ok .generated)
      | _, _ => ((file.withDirectories tree).1, .error (.unwritable file.path)) := rfl

theorem store_eq_ok_iff :
    file.store tree = (after, .ok outcome) ↔
      outcome = .generated ∧ ∃ middle, file.withDirectories tree = (middle, true) ∧
        middle.write? file.path file.bytes = some after := by
  rw [store_eq]
  obtain ⟨middle, made⟩ := file.withDirectories tree
  cases made with
  | false => simp
  | true =>
      cases hput : middle.write? file.path file.bytes with
      | none => simp [hput]
      | some written => simp [hput, eq_comm, and_comm]

/-- A file is stored unless it is there already. -/
theorem write_eq_ok_iff :
    file.write tree = (after, .ok outcome) ↔
      (outcome = .unchanged ∧ after = tree ∧ tree.find? file.path = some (.file file.bytes)) ∨
        (tree.find? file.path ≠ some (.file file.bytes) ∧
          tree.find? file.path ≠ some .directory ∧ file.store tree = (after, .ok outcome)) := by
  unfold write upToDate
  cases hfind : tree.find? file.path with
  | none => simp
  | some entry =>
      cases entry with
      | directory => simp
      | file bytes =>
          by_cases hbytes : bytes = file.bytes
          · simp [hbytes, eq_comm, and_comm]
          · simp [hbytes]

/-- A file is left unchanged exactly if it is there. -/
theorem write_eq_unchanged_iff :
    file.write tree = (after, .ok .unchanged) ↔
      after = tree ∧ tree.find? file.path = some (.file file.bytes) := by
  rw [write_eq_ok_iff, store_eq_ok_iff]
  simp

/-- Paths that are of no use are not written to. -/
theorem isUsable_of_write (hwrite : file.write tree = (after, .ok outcome)) :
    Path.isUsable file.path = true := by
  rcases write_eq_ok_iff.1 hwrite with ⟨-, -, hfind⟩ | ⟨-, -, hstore⟩
  · obtain ⟨location, hlocate, -⟩ := Option.bind_eq_some_iff.1 hfind
    exact (FileTree.locate?_eq_some_iff.1 hlocate).1
  · obtain ⟨-, middle, -, hput⟩ := store_eq_ok_iff.1 hstore
    obtain ⟨location, hlocate, -⟩ := FileTree.write?_eq_some_iff.1 hput
    exact (FileTree.locate?_eq_some_iff.1 hlocate).1

/-- What leads to a directory is not written to. -/
theorem isDirectory_of_write {location : Location}
    (hwrite : file.write tree = (after, .ok outcome))
    (hfollow : tree.follow? (tree.base file.path) (Path.steps file.path) = some location) :
    tree.isDirectory location = false := by
  rw [Bool.eq_false_iff]
  intro hdirectory
  have hlocate : tree.locate? file.path = some location :=
    FileTree.locate?_eq_some_iff.2
      ⟨isUsable_of_write hwrite, FileTree.follow?_of_leading hfollow hdirectory⟩
  have hfind : tree.find? file.path = some .directory := by
    rw [FileTree.find?, hlocate]
    exact FileTree.isDirectory_iff.1 hdirectory
  rcases write_eq_ok_iff.1 hwrite with ⟨-, -, hsame⟩ | ⟨-, hother, -⟩
  · rw [hfind] at hsame
    cases hsame
  · exact hother hfind

/-- Where no directories are made, writing puts the file where its path leads to. -/
theorem exists_put_of_write (hwrite : file.write tree = (after, .ok outcome))
    (hmade : (file.withDirectories tree).1 = tree) :
    ∃ location, tree.locate? file.path = some location ∧ tree.isDirectory location = false ∧
      after = tree.put location (.file file.bytes) := by
  rcases write_eq_ok_iff.1 hwrite with ⟨-, rfl, hfind⟩ | ⟨-, -, hstore⟩
  · obtain ⟨location, hlocate, hget⟩ := Option.bind_eq_some_iff.1 hfind
    refine ⟨location, hlocate, ?_, (FileTree.put_of_get? hget).symm⟩
    unfold FileTree.isDirectory
    rw [hget]
  · obtain ⟨-, middle, hmiddle, hput⟩ := store_eq_ok_iff.1 hstore
    obtain rfl : tree = middle := hmade.symm.trans (congrArg Prod.fst hmiddle)
    exact FileTree.write?_eq_some_iff.1 hput

/-- Where no directories are missing, a file can be written into a place that is no directory. -/
theorem write_of_place {location : Location} (hlocate : tree.locate? file.path = some location)
    (hfree : tree.isDirectory location = false)
    (hmade : file.withDirectories tree = (tree, true)) :
    ∃ outcome, file.write tree = (tree.put location (.file file.bytes), .ok outcome) := by
  by_cases hthere : tree.find? file.path = some (.file file.bytes)
  · refine ⟨.unchanged, write_eq_unchanged_iff.2 ⟨?_, hthere⟩⟩
    obtain ⟨place, hplace, hget⟩ := Option.bind_eq_some_iff.1 hthere
    obtain rfl := Option.some.inj (hlocate.symm.trans hplace)
    exact FileTree.put_of_get? hget
  · have hother : tree.find? file.path ≠ some .directory := by
      intro hdirectory
      obtain ⟨place, hplace, hget⟩ := Option.bind_eq_some_iff.1 hdirectory
      obtain rfl := Option.some.inj (hlocate.symm.trans hplace)
      rw [FileTree.isDirectory_iff.2 hget] at hfree
      cases hfree
    refine ⟨.generated, write_eq_ok_iff.2 (.inr ⟨hthere, hother, store_eq_ok_iff.2 ⟨rfl, ?_⟩⟩)⟩
    exact ⟨tree, hmade, FileTree.write?_eq_some_iff.2 ⟨location, hlocate, hfree, rfl⟩⟩

end OutputFile
end Stencil
