import Stencil.Files.Tree
import Stencil.Proofs.PathSteps

namespace Stencil
namespace FileTree

/-!
# Where paths lead

Idle segments ask for a directory at the place where they stand and do not lead
anywhere, so a path leads to where its steps lead.  Directories that a path leads
through are there already when they are made.

Following a path looks at nothing but which locations are directories.  A tree into
which a file is put, at a place that is no directory, has the same directories.
-/

variable {tree : FileTree} {here there : Location} {segment : Text} {pieces : List Text}

theorem isDirectory_iff {location : Location} :
    tree.isDirectory location = true ↔ tree.get? location = some .directory := by
  unfold isDirectory
  cases tree.get? location with
  | none => simp
  | some entry => cases entry <;> simp

/-! ## Following steps -/

/-- Where a segment leads from a directory. -/
def moved? (here : Location) (segment : Text) : Option Location :=
  if Path.isIdle segment then some here
  else if Path.isParent segment then some here.dropLast
  else if Path.isName segment then some (here ++ [segment])
  else none

/-- Every step starts at a directory. -/
theorem follow?_cons (tree : FileTree) (here : Location) (segment : Text) (rest : List Text) :
    tree.follow? here (segment :: rest) =
      if tree.isDirectory here then (moved? here segment).bind (tree.follow? · rest) else none := by
  unfold moved?
  rw [follow?]
  cases tree.isDirectory here with
  | false => rfl
  | true =>
      show (if Path.isIdle segment = true then _ else _) = Option.bind _ _
      split_ifs <;> rfl

theorem follow?_cons_eq_some_iff {rest : List Text} :
    tree.follow? here (segment :: rest) = some there ↔
      tree.isDirectory here = true ∧
        ∃ next, moved? here segment = some next ∧ tree.follow? next rest = some there := by
  rw [follow?_cons]
  cases tree.isDirectory here with
  | false => simp
  | true => simp [Option.bind_eq_some_iff]

/-- Segments are followed one part after the other. -/
theorem follow?_append {others : List Text} :
    tree.follow? here (pieces ++ others) = some there ↔
      ∃ middle, tree.follow? here pieces = some middle ∧
        tree.follow? middle others = some there := by
  induction pieces generalizing here with
  | nil =>
      show tree.follow? here others = some there ↔ ∃ middle, some here = some middle ∧ _
      simp
  | cons piece rest ih =>
      simp only [List.cons_append, follow?_cons_eq_some_iff, ih]
      constructor
      · rintro ⟨hhere, next, hmoved, middle, hrest, hothers⟩
        exact ⟨middle, ⟨hhere, next, hmoved, hrest⟩, hothers⟩
      · rintro ⟨middle, ⟨hhere, next, hmoved, hrest⟩, hothers⟩
        exact ⟨hhere, next, hmoved, middle, hrest, hothers⟩

theorem moved?_of_isIdle (hidle : Path.isIdle segment = true) : moved? here segment = some here :=
  if_pos hidle

/-- A path leads to where its steps lead. -/
theorem follow?_leading (hfollow : tree.follow? here pieces = some there) :
    tree.follow? here (Path.leading pieces) = some there := by
  induction pieces generalizing here with
  | nil => exact hfollow
  | cons piece rest ih =>
      obtain ⟨hhere, next, hmoved, hrest⟩ := follow?_cons_eq_some_iff.1 hfollow
      cases hidle : Path.isIdle piece with
      | true =>
          rw [moved?_of_isIdle hidle, Option.some.injEq] at hmoved
          rw [Path.leading, List.filter_cons_of_neg (by simp [hidle])]
          exact ih (hmoved ▸ hrest)
      | false =>
          rw [Path.leading, List.filter_cons_of_pos (by simp [hidle])]
          exact follow?_cons_eq_some_iff.2 ⟨hhere, next, hmoved, ih hrest⟩

/-- A way to a directory starts at one. -/
theorem isDirectory_of_follow? (hfollow : tree.follow? here pieces = some there)
    (hthere : tree.isDirectory there = true) : tree.isDirectory here = true := by
  cases pieces with
  | nil =>
      obtain rfl : here = there := Option.some.inj hfollow
      exact hthere
  | cons piece rest => exact (follow?_cons_eq_some_iff.1 hfollow).1

/-- Idle segments on the way to a directory can be followed. -/
theorem follow?_of_leading (hfollow : tree.follow? here (Path.leading pieces) = some there)
    (hthere : tree.isDirectory there = true) : tree.follow? here pieces = some there := by
  induction pieces generalizing here with
  | nil => exact hfollow
  | cons piece rest ih =>
      have hhere := isDirectory_of_follow? hfollow hthere
      cases hidle : Path.isIdle piece with
      | true =>
          rw [Path.leading, List.filter_cons_of_neg (by simp [hidle])] at hfollow
          exact follow?_cons_eq_some_iff.2 ⟨hhere, here, moved?_of_isIdle hidle, ih hfollow⟩
      | false =>
          rw [Path.leading, List.filter_cons_of_pos (by simp [hidle])] at hfollow
          obtain ⟨-, next, hmoved, hrest⟩ := follow?_cons_eq_some_iff.1 hfollow
          exact follow?_cons_eq_some_iff.2 ⟨hhere, next, hmoved, ih hrest⟩

/-- Nothing is made on a way through directories. -/
theorem makeWay_of_follow? (hfollow : tree.follow? here (Path.leading pieces) = some there)
    (hthere : tree.isDirectory there = true) : tree.makeWay here pieces = (tree, true) := by
  induction pieces generalizing here with
  | nil => rfl
  | cons piece rest ih =>
      rw [makeWay]
      cases hidle : Path.isIdle piece with
      | true =>
          rw [Path.leading, List.filter_cons_of_neg (by simp [hidle])] at hfollow
          exact ih hfollow
      | false =>
          rw [Path.leading, List.filter_cons_of_pos (by simp [hidle])] at hfollow
          obtain ⟨-, next, hmoved, hrest⟩ := follow?_cons_eq_some_iff.1 hfollow
          have hnext := isDirectory_of_follow? hrest hthere
          have hway := ih hrest
          rw [moved?, if_neg (by simp [hidle])] at hmoved
          cases hparent : Path.isParent piece with
          | true =>
              simp only [hparent, if_true, Option.some.injEq] at hmoved
              subst hmoved
              exact hway
          | false =>
              cases hname : Path.isName piece with
              | false => simp [hparent, hname] at hmoved
              | true =>
                  simp only [hparent, hname, Bool.false_eq_true, if_false, if_true,
                    Option.some.injEq] at hmoved
                  subst hmoved
                  have hthere : tree.get? (here ++ [piece]) = some .directory :=
                    isDirectory_iff.1 hnext
                  simp only [hthere]
                  exact hway

/-! ## Paths -/

theorem base_congr {path other : Text} (h : Path.IsAbsolute path ↔ Path.IsAbsolute other) :
    tree.base path = tree.base other :=
  if_congr h rfl rfl

theorem locate?_eq_some_iff {path : Text} :
    tree.locate? path = some there ↔
      Path.isUsable path = true ∧
        tree.follow? (tree.base path) (Path.segments path) = some there := by
  unfold locate?
  cases Path.isUsable path with
  | false => simp
  | true => simp

/-- A path leads to a name in the directory that the path above leads to, or to the directory
above that one. -/
theorem exists_directory_of_locate? {path : Text} {above : List Text} {last : Text}
    (hlocate : tree.locate? path = some there) (hsteps : Path.steps path = above ++ [last]) :
    ∃ directory, tree.follow? (tree.base path) above = some directory ∧
      tree.isDirectory directory = true ∧ moved? directory last = some there := by
  obtain ⟨-, hfollow⟩ := locate?_eq_some_iff.1 hlocate
  have hleading := follow?_leading hfollow
  rw [show Path.leading (Path.segments path) = above ++ [last] from hsteps] at hleading
  obtain ⟨directory, habove, hlast⟩ := follow?_append.1 hleading
  obtain ⟨hdirectory, next, hmoved, hnext⟩ := follow?_cons_eq_some_iff.1 hlast
  obtain rfl : next = there := Option.some.inj hnext
  exact ⟨directory, habove, hdirectory, hmoved⟩

theorem isUsable_of_isPrefix {path start : Text} (hpath : start <+: path) (hne : start ≠ [])
    (husable : Path.isUsable path = true) : Path.isUsable start = true := by
  obtain ⟨more, rfl⟩ := hpath
  simp only [Path.isUsable, Bool.and_eq_true, List.all_append, Text.byteSize_append,
    decide_eq_true_eq] at husable ⊢
  refine ⟨⟨by simp [hne], husable.1.2.1⟩, ?_⟩
  omega

/-- The path above a path to a directory leads to a directory. -/
theorem exists_follow?_parent? {path : Text}
    (hfollow : tree.follow? (tree.base path) (Path.steps path) = some there)
    (hthere : tree.isDirectory there = true) :
    ∃ middle, tree.follow? (tree.base path) (Path.steps ((Path.parent? path).getD [])) =
      some middle ∧ tree.isDirectory middle = true := by
  rcases List.eq_nil_or_concat (Path.steps path) with hnone | ⟨above, last, hsteps⟩
  · rw [Path.parent?_of_no_steps hnone]
    exact ⟨tree.base path, rfl, isDirectory_of_follow? hfollow hthere⟩
  · rw [List.concat_eq_append] at hsteps
    obtain ⟨directory, hparent, habove, -, -⟩ := Path.exists_parent? hsteps
    rw [hsteps] at hfollow
    obtain ⟨middle, hmiddle, hlast⟩ := follow?_append.1 hfollow
    refine ⟨middle, ?_, isDirectory_of_follow? hlast hthere⟩
    rw [hparent, Option.getD_some, habove]
    exact hmiddle

/-- A directory whose steps lead to a directory is there when it is made. -/
theorem makeDirectories_of_follow? {path : Text} (husable : path ≠ [] → Path.isUsable path = true)
    (hfollow : tree.follow? (tree.base path) (Path.steps path) = some there)
    (hthere : tree.isDirectory there = true) : tree.makeDirectories path = (tree, true) := by
  unfold makeDirectories
  by_cases hempty : path = []
  · rw [hempty]
    rfl
  have hfind : tree.find? path = some .directory := by
    have hlocate : tree.locate? path = some there :=
      locate?_eq_some_iff.2 ⟨husable hempty, follow?_of_leading hfollow hthere⟩
    rw [find?, hlocate]
    exact isDirectory_iff.1 hthere
  rw [if_neg (by simp [hempty]), if_neg (by simp [husable hempty])]
  cases hdot : Path.endsInDot path with
  | false => exact makeWay_of_follow? hfollow hthere
  | true =>
      obtain ⟨middle, hmiddle, hdirectory⟩ := exists_follow?_parent? hfollow hthere
      have hway := makeWay_of_follow? hmiddle hdirectory
      simp [hway, hfind]

/-- The directories above a file that can be named are there if its steps lead through them. -/
theorem makeDirectories_parent {path : Text} {above : List Text} {last : Text}
    (husable : Path.isUsable path = true) (hsteps : Path.steps path = above ++ [last])
    (habove : tree.follow? (tree.base path) above = some there)
    (hthere : tree.isDirectory there = true) :
    ∃ directory, Path.parent? path = some directory ∧
      tree.makeDirectories directory = (tree, true) := by
  obtain ⟨directory, hparent, hdirectory, hstart, habsolute⟩ := Path.exists_parent? hsteps
  refine ⟨directory, hparent, makeDirectories_of_follow? ?_ ?_ hthere⟩
  · exact fun hne => isUsable_of_isPrefix hstart hne husable
  · rw [base_congr habsolute, hdirectory]
    exact habove

end FileTree
end Stencil
