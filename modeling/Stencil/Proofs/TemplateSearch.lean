import Mathlib.Data.Char
import Mathlib.Data.List.Lex
import Stencil.Files.Generate
import Stencil.Proofs.FileWrites

namespace Stencil
namespace FileTree

/-!
# Files that are no templates

A file whose name lacks the mark of templates can be put into a tree, in the place
of another file or where there was nothing, without an effect on what is found when
the tree is searched for templates, and on what the templates hold.
`KeepsTemplates` is this relation between two trees, and `keepsTemplates_put` is the
step from which it is built up.  Part of it holds for all files, `KeepsPlaces`: paths lead to the
same places.
-/

variable {tree : FileTree} {location : Location}

/-! ## Listing what is below a place -/

/-- What is put in a place is seen there or, if there was nothing, at the end. -/
theorem filterMap_putIn {α : Type} {f : Location × Entry → Option α} {entry : Entry}
    {entries : List (Location × Entry)}
    (hsame : ∀ old, entries.find? (fun other => other.1 = location) = some (location, old) →
      f (location, old) = f (location, entry)) :
    (putIn location entry entries).filterMap f = entries.filterMap f ∨
      (putIn location entry entries).filterMap f =
        entries.filterMap f ++ (f (location, entry)).toList := by
  induction entries with
  | nil =>
      right
      cases hf : f (location, entry) <;> simp [putIn, hf]
  | cons first rest ih =>
      obtain ⟨other, old⟩ := first
      by_cases hother : other = location
      · subst hother
        left
        rw [putIn, if_pos rfl, List.filterMap_cons, List.filterMap_cons, hsame old (by simp)]
      · have hrest := ih fun old hfind => hsame old (by simpa [hother] using hfind)
        rw [putIn, if_neg hother, List.filterMap_cons, List.filterMap_cons]
        cases f (other, old) with
        | none => exact hrest
        | some found =>
            simpa only [List.cons_append, List.cons.injEq, true_and] using hrest

/-- In a place that is no directory there is a file or nothing. -/
theorem file_of_find? (hfree : tree.isDirectory location = false) {old : Entry}
    (hfind : tree.entries.find? (fun other => other.1 = location) = some (location, old)) :
    ∃ bytes, old = .file bytes := by
  cases old with
  | file bytes => exact ⟨bytes, rfl⟩
  | directory =>
      have hget : tree.get? location = some .directory := by
        unfold get?
        rw [if_neg (by simp [ne_nil_of_isDirectory_eq_false hfree]), hfind]
        rfl
      rw [isDirectory_iff.2 hget] at hfree
      cases hfree

theorem directoriesBelow_put_file (hfree : tree.isDirectory location = false) (bytes : ByteArray)
    (top : Location) :
    (tree.put location (.file bytes)).directoriesBelow top = tree.directoriesBelow top := by
  refine Or.elim (filterMap_putIn ?_) id fun hput => hput.trans (List.append_nil _)
  intro old hfind
  obtain ⟨before, rfl⟩ := file_of_find? hfree hfind
  rfl

/-! ## The order of the files -/

/-- Names are ordered as lists of lists of characters. -/
theorem not_lex_precedes_iff {a b : List Text} :
    (!List.lex b a Text.precedes) = true ↔ a ≤ b := by
  have hprecedes : Text.precedes = fun s t => decide (s < t) := by
    funext s t
    rw [Bool.eq_iff_iff]
    simp [Text.precedes]
  rw [hprecedes]
  simp

theorem pairwise_sorted (items : List (List Text)) :
    (items.mergeSort fun a b => !List.lex b a Text.precedes).Pairwise (· ≤ ·) := by
  refine (List.pairwise_mergeSort ?_ ?_ items).imp not_lex_precedes_iff.1
  · intro a b c hab hbc
    exact not_lex_precedes_iff.2
      (Std.le_trans (not_lex_precedes_iff.1 hab) (not_lex_precedes_iff.1 hbc))
  · intro a b
    rw [Bool.or_eq_true, not_lex_precedes_iff, not_lex_precedes_iff]
    exact Std.le_total

/-- There is one order of the files that is the order of their names. -/
theorem sorted_eq_of_perm {items others : List (List Text)} (hperm : items.Perm others)
    (hothers : others.Pairwise (· ≤ ·)) :
    (items.mergeSort fun a b => !List.lex b a Text.precedes) = others :=
  List.Perm.eq_of_pairwise (fun _ _ _ _ hab hba => Std.le_antisymm hab hba)
    (pairwise_sorted items) hothers ((List.mergeSort_perm _ _).trans hperm)

theorem filter_sorted (p : List Text → Bool) (items : List (List Text)) :
    (items.mergeSort fun a b => !List.lex b a Text.precedes).filter p =
      (items.filter p).mergeSort fun a b => !List.lex b a Text.precedes :=
  (sorted_eq_of_perm ((List.mergeSort_perm _ _).symm.filter p)
    ((pairwise_sorted items).filter p)).symm

theorem filesBelow_of_perm {top : Location} {found : List (List Text)}
    (hfound : (tree.entries.filterMap fun (location, entry) =>
      match entry with
      | .file _ => below? top location
      | .directory => none).Perm found)
    (hsorted : found.Pairwise (· ≤ ·)) : tree.filesBelow top = found :=
  sorted_eq_of_perm hfound hsorted

/-- A file in a place that is no directory is the only one that is new among the files. -/
theorem filter_filesBelow_put (hfree : tree.isDirectory location = false) (bytes : ByteArray)
    {top : Location} {p : List Text → Bool}
    (hp : ∀ names, below? top location = some names → p names = false) :
    ((tree.put location (.file bytes)).filesBelow top).filter p =
      (tree.filesBelow top).filter p := by
  unfold filesBelow
  rw [filter_sorted, filter_sorted]
  refine congrArg (List.mergeSort · _) ?_
  refine Or.elim (filterMap_putIn ?_) (congrArg (List.filter p)) fun hput => ?_
  · intro old hfind
    obtain ⟨before, rfl⟩ := file_of_find? hfree hfind
    rfl
  · refine (congrArg (List.filter p) hput).trans ?_
    have hnew : (below? top location).toList.filter p = [] := by
      cases hbelow : below? top location with
      | none => rfl
      | some names => simp [hp names hbelow]
    rw [List.filter_append]
    exact (congrArg _ hnew).trans (List.append_nil _)

/-! ## Templates -/

theorem templates_of_filesBelow {root : Text} {top : Location} {found : List (List Text)}
    (hlocate : tree.locate? root = some top)
    (hsearch : ((tree.get? top).isSome && tree.isSearchable root top) = true)
    (hfound : tree.filesBelow top = found) :
    tree.templates root = .ok ((found.map (extend root)).filter Path.isTemplate) := by
  unfold FileTree.templates
  rw [hlocate]
  dsimp only
  rw [hsearch, if_pos rfl, hfound]

/-- The name of a file that is no template. -/
structure IsPlainName (name : Text) : Prop where
  slash : '/' ∉ name
  idle : Path.isIdle name = false
  mark : Text.has Path.templateMark name = false

theorem below?_eq_some_iff {top : Location} {names : List Text} :
    below? top location = some names ↔ location = top ++ names := by
  induction top generalizing location with
  | nil =>
      show some location = some names ↔ location = names
      rw [Option.some.injEq]
  | cons first top ih =>
      cases location with
      | nil =>
          show none = some names ↔ _
          simp
      | cons other location =>
          show (if (first == other) = true then below? top location else none) = some names ↔ _
          by_cases hsame : first = other
          · rw [if_pos (beq_iff_eq.2 hsame), ih, hsame]
            simp
          · rw [if_neg fun h => hsame (beq_iff_eq.1 h)]
            simp [Ne.symm hsame]

theorem steps_extend (path : Text) (names : List Text) :
    Path.steps (extend path names) = Path.steps path ++ names.flatMap Path.steps := by
  induction names generalizing path with
  | nil => simp [extend]
  | cons name rest ih =>
      rw [extend, ih, Path.steps_join, List.append_assoc]
      rfl

/-- A template leads to a location whose name has the mark. -/
theorem exists_of_isTemplate {path : Text} (htemplate : Path.isTemplate path = true)
    (hlocate : tree.locate? path = some location) :
    ∃ directory name, location = directory ++ [name] ∧ Text.has Path.templateMark name = true := by
  rcases List.eq_nil_or_concat (Path.steps path) with hnone | ⟨above, last, hsteps⟩
  · rw [Path.isTemplate_of_no_steps hnone] at htemplate
    cases htemplate
  · rw [List.concat_eq_append] at hsteps
    rw [Path.isTemplate_of_steps hsteps] at htemplate
    have hmem : last ∈ Path.steps path := by simp [hsteps]
    have hidle := Path.isIdle_of_mem_steps hmem
    have hparent : Path.isParent last = false := by
      refine decide_eq_false fun hlast => ?_
      rw [hlast] at htemplate
      revert htemplate
      decide
    obtain ⟨directory, -, -, hmoved⟩ := exists_directory_of_locate? hlocate hsteps
    rw [moved?, if_neg (by simp [hidle]), if_neg (by simp [hparent])] at hmoved
    cases hname : Path.isName last with
    | false => simp [hname] at hmoved
    | true =>
        rw [hname, if_pos rfl, Option.some.injEq] at hmoved
        exact ⟨directory, last, hmoved.symm, htemplate⟩

theorem isTemplate_extend {root : Text} {top directory : Location} {names : List Text}
    {name : Text} (hroot : tree.locate? root = some top)
    (hnames : directory ++ [name] = top ++ names) (hname : IsPlainName name) :
    Path.isTemplate (extend root names) = false := by
  rcases List.eq_nil_or_concat names with rfl | ⟨way, last, rfl⟩
  · rw [List.append_nil] at hnames
    -- The path that is searched leads to the file itself.
    rw [Bool.eq_false_iff]
    intro htemplate
    obtain ⟨origin, marked, hplace, hmark⟩ := exists_of_isTemplate htemplate hroot
    obtain ⟨-, hlast⟩ := List.append_inj' (hnames.trans hplace) rfl
    obtain rfl : name = marked := List.singleton_inj.1 hlast
    rw [hname.mark] at hmark
    cases hmark
  · rw [List.concat_eq_append, ← List.append_assoc] at hnames
    obtain ⟨-, hlast⟩ := List.append_inj' hnames rfl
    obtain rfl : name = last := List.singleton_inj.1 hlast
    have hsteps : Path.steps (extend root (way.concat name)) =
        (Path.steps root ++ way.flatMap Path.steps) ++ [name] := by
      rw [steps_extend, List.concat_eq_append, List.flatMap_append, ← List.append_assoc,
        List.flatMap_singleton, Path.steps_of_not_mem hname.slash,
        Path.leading_singleton hname.idle]
    rw [Path.isTemplate_of_steps hsteps, hname.mark]

/-! ## Trees with the same templates -/

theorem follow?_congr {other : FileTree}
    (hdirectory : ∀ location, other.isDirectory location = tree.isDirectory location)
    (here : Location) (pieces : List Text) :
    other.follow? here pieces = tree.follow? here pieces := by
  induction pieces generalizing here with
  | nil => rfl
  | cons piece rest ih => simp only [follow?_cons, hdirectory, ih]

/-- A tree with the same working directory and directories as an older one. -/
structure KeepsPlaces (old new : FileTree) : Prop where
  working : new.working = old.working
  isDirectory : ∀ location, new.isDirectory location = old.isDirectory location

namespace KeepsPlaces

variable {old middle new : FileTree}

theorem refl (tree : FileTree) : KeepsPlaces tree tree where
  working := rfl
  isDirectory _ := rfl

theorem trans (hfirst : KeepsPlaces old middle) (hsecond : KeepsPlaces middle new) :
    KeepsPlaces old new where
  working := hsecond.working.trans hfirst.working
  isDirectory location := (hsecond.isDirectory location).trans (hfirst.isDirectory location)

theorem base (h : KeepsPlaces old new) (path : Text) : new.base path = old.base path := by
  unfold FileTree.base
  rw [h.working]

/-- Paths lead to the same places. -/
theorem locate? (h : KeepsPlaces old new) (path : Text) :
    new.locate? path = old.locate? path := by
  unfold FileTree.locate?
  rw [h.base, follow?_congr h.isDirectory]

end KeepsPlaces

/-- A file in a place that is no directory leads to no other places. -/
theorem keepsPlaces_put_file (hfree : tree.isDirectory location = false) (bytes : ByteArray) :
    KeepsPlaces tree (tree.put location (.file bytes)) where
  working := rfl
  isDirectory := isDirectory_put_file hfree bytes

/-- A tree with the same working directory and directories as an older one, and with the same
templates, for every directory that can be searched. -/
structure KeepsTemplates (old new : FileTree) : Prop where
  working : new.working = old.working
  isDirectory : ∀ location, new.isDirectory location = old.isDirectory location
  get? : ∀ directory name, Text.has Path.templateMark name = true →
    new.get? (directory ++ [name]) = old.get? (directory ++ [name])
  templates : ∀ root paths, old.templates root = .ok paths → new.templates root = .ok paths

namespace KeepsTemplates

variable {old middle new : FileTree}

theorem refl (tree : FileTree) : KeepsTemplates tree tree where
  working := rfl
  isDirectory _ := rfl
  get? _ _ _ := rfl
  templates _ _ h := h

theorem trans (hfirst : KeepsTemplates old middle) (hsecond : KeepsTemplates middle new) :
    KeepsTemplates old new where
  working := hsecond.working.trans hfirst.working
  isDirectory location := (hsecond.isDirectory location).trans (hfirst.isDirectory location)
  get? directory name hmark :=
    (hsecond.get? directory name hmark).trans (hfirst.get? directory name hmark)
  templates root paths h := hsecond.templates root paths (hfirst.templates root paths h)

theorem places (h : KeepsTemplates old new) : KeepsPlaces old new := ⟨h.working, h.isDirectory⟩

theorem base (h : KeepsTemplates old new) (path : Text) : new.base path = old.base path :=
  h.places.base path

theorem locate? (h : KeepsTemplates old new) (path : Text) :
    new.locate? path = old.locate? path :=
  h.places.locate? path

/-- Templates hold the same texts. -/
theorem readText? (h : KeepsTemplates old new) {path : Text}
    (htemplate : Path.isTemplate path = true) : new.readText? path = old.readText? path := by
  have hfind : new.find? path = old.find? path := by
    unfold find?
    rw [h.locate? path]
    cases hlocate : old.locate? path with
    | none => rfl
    | some location =>
        obtain ⟨directory, name, rfl, hmark⟩ := exists_of_isTemplate htemplate hlocate
        exact h.get? directory name hmark
  unfold FileTree.readText? read?
  rw [hfind]

end KeepsTemplates

theorem isSome_get?_put {other : Location} (entry : Entry) (hplace : location ≠ [])
    (hsome : (tree.get? other).isSome = true) :
    ((tree.put location entry).get? other).isSome = true := by
  by_cases hother : other = location
  · rw [hother, get?_put_self hplace]
    rfl
  · rwa [get?_put_of_ne hother]

theorem isSearchable_put_file (hfree : tree.isDirectory location = false) (bytes : ByteArray)
    (root : Text) (top : Location) :
    (tree.put location (.file bytes)).isSearchable root top = tree.isSearchable root top := by
  unfold isSearchable
  rw [directoriesBelow_put_file hfree]

/-- A file with a plain name, in a place that is no directory, leaves the templates as they are. -/
theorem keepsTemplates_put {directory : Location} {name : Text} (hname : IsPlainName name)
    (hfree : tree.isDirectory (directory ++ [name]) = false) (bytes : ByteArray) :
    KeepsTemplates tree (tree.put (directory ++ [name]) (.file bytes)) where
  working := rfl
  isDirectory := isDirectory_put_file hfree bytes
  get? other marked hmark := by
    refine get?_put_of_ne (fun hsame => ?_) _
    obtain ⟨-, hlast⟩ := List.append_inj' hsame rfl
    rw [List.singleton_inj.1 hlast, hname.mark] at hmark
    cases hmark
  templates root paths htemplates := by
    unfold FileTree.templates at htemplates ⊢
    rw [(keepsPlaces_put_file hfree bytes).locate?]
    cases htop : tree.locate? root with
    | none =>
        rw [htop] at htemplates
        cases htemplates
    | some top =>
        simp only [htop] at htemplates ⊢
        cases hsearch : (tree.get? top).isSome && tree.isSearchable root top with
        | false => simp [hsearch] at htemplates
        | true =>
            rw [hsearch, if_pos rfl] at htemplates
            rw [Bool.and_eq_true] at hsearch
            -- The file is not among the paths that look like templates.
            have hplain : ∀ names, below? top (directory ++ [name]) = some names →
                (Path.isTemplate ∘ extend root) names = false :=
              fun names hbelow => isTemplate_extend htop (below?_eq_some_iff.1 hbelow) hname
            rw [isSearchable_put_file hfree,
              isSome_get?_put _ (ne_nil_of_isDirectory_eq_false hfree) hsearch.1, hsearch.2,
              ← htemplates, List.filter_map, List.filter_map, filter_filesBelow_put hfree _ hplain]
            rfl

end FileTree
end Stencil
