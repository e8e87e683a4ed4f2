import Stencil.Proofs.Regeneration

namespace Stencil

/-!
# Runs that stop

A run over a directory expands its templates one after the other.  A template is expanded in
full before anything is written, and then one file is put where its destination leads to.  So a
template that cannot be expanded leaves the tree as it is (`emit_cases`), and a run that stops at
it leaves what the templates before it have been expanded to.

Putting a file changes neither the directories nor the object in any other place.  Paths
therefore lead to the same places all through a run, and in a place to which no destination leads
there is in the end what was there before.  Both hold for failing runs too.
-/

namespace FileTree

variable {tree : FileTree}

/-! ## Directories that are there -/

/-- The way to a directory leads through one, or starts there. -/
theorem exists_follow?_dropLast {here there : Location} {pieces : List Text}
    (hfollow : tree.follow? here pieces = some there) (hthere : tree.isDirectory there = true) :
    ∃ middle, tree.follow? here pieces.dropLast = some middle ∧
      tree.isDirectory middle = true := by
  rcases List.eq_nil_or_concat pieces with rfl | ⟨above, last, rfl⟩
  · exact ⟨there, hfollow, hthere⟩
  · rw [List.concat_eq_append] at hfollow ⊢
    obtain ⟨middle, hmiddle, hlast⟩ := follow?_append.1 hfollow
    rw [List.dropLast_concat]
    exact ⟨middle, hmiddle, isDirectory_of_follow? hlast hthere⟩

/-- Where there is a directory none is made. -/
theorem fst_makeDirectories {path : Text} {there : Location}
    (hfollow : tree.follow? (tree.base path) (Path.steps path) = some there)
    (hthere : tree.isDirectory there = true) : (tree.makeDirectories path).1 = tree := by
  by_cases husable : path ≠ [] → Path.isUsable path = true
  · rw [makeDirectories_of_follow? husable hfollow hthere]
  · rw [Classical.not_imp] at husable
    unfold makeDirectories
    rw [if_neg (by simpa using husable.1), if_pos (by simpa using husable.2)]

end FileTree

/-! ## Writing -/

namespace OutputFile

variable {tree after : FileTree} {file : OutputFile}

/-- No directories are made for a file if all its steps but the last lead to one. -/
theorem fst_withDirectories {there : Location}
    (hway : tree.follow? (tree.base file.path) (Path.steps file.path).dropLast = some there)
    (hthere : tree.isDirectory there = true) : (file.withDirectories tree).1 = tree := by
  unfold withDirectories
  rcases List.eq_nil_or_concat (Path.steps file.path) with hnone | ⟨above, last, hsteps⟩
  · have hparent := Path.parent?_of_no_steps hnone
    cases hfound : Path.parent? file.path with
    | none => rfl
    | some directory =>
        rw [hfound, Option.getD_some] at hparent
        rw [hparent]
        rfl
  · rw [List.concat_eq_append] at hsteps
    obtain ⟨directory, hparent, habove, -, habsolute⟩ := Path.exists_parent? hsteps
    rw [hsteps, List.dropLast_concat, ← habove, ← FileTree.base_congr habsolute] at hway
    rw [hparent]
    exact FileTree.fst_makeDirectories hway hthere

/-- There is no file at the path, or one with other bytes. -/
def IsStale (file : OutputFile) (tree : FileTree) : Prop :=
  tree.find? file.path = none ∨
    ∃ bytes, tree.find? file.path = some (.file bytes) ∧ bytes ≠ file.bytes

/-- A file that has been written is reported as generated exactly if it was missing or other. -/
theorem outcome_eq_generated_iff {outcome : WriteOutcome}
    (hwrite : file.write tree = (after, .ok outcome)) :
    outcome = .generated ↔ file.IsStale tree := by
  unfold IsStale
  rcases write_eq_ok_iff.1 hwrite with ⟨rfl, -, hfind⟩ | ⟨hother, hdirectory, hstore⟩
  · simp [hfind]
  · obtain ⟨rfl, -⟩ := store_eq_ok_iff.1 hstore
    cases hfind : tree.find? file.path with
    | none => simp
    | some entry =>
        cases entry with
        | directory => exact absurd hfind hdirectory
        | file bytes =>
            have hbytes : bytes ≠ file.bytes := fun heq => hother (heq ▸ hfind)
            simp [hbytes]

/-- A file that cannot be stored leaves the directories that were made for it. -/
theorem fst_store_of_error {cause : FileError} (hstore : file.store tree = (after, .error cause)) :
    after = (file.withDirectories tree).1 := by
  rw [store_eq] at hstore
  split at hstore
  · cases hstore
  · exact (congrArg Prod.fst hstore).symm

/-- Where no directories are made, a file that is not written leaves the tree as it is, and one
that is written is put where its path leads to. -/
theorem write_cases (hmade : (file.withDirectories tree).1 = tree) :
    (∃ cause, file.write tree = (tree, .error cause)) ∨
      ∃ location outcome, tree.locate? file.path = some location ∧
        tree.isDirectory location = false ∧
        file.write tree = (tree.put location (.file file.bytes), .ok outcome) ∧
        (outcome = .generated ↔ file.IsStale tree) := by
  rcases hwrite : file.write tree with ⟨after, result⟩
  cases result with
  | error cause =>
      left
      refine ⟨cause, ?_⟩
      have hafter : after = tree := by
        unfold write at hwrite
        split at hwrite
        · exact (congrArg Prod.fst hwrite).symm
        · cases hwrite
        · exact (fst_store_of_error hwrite).trans hmade
      rw [hafter]
  | ok outcome =>
      right
      obtain ⟨location, hlocate, hfree, rfl⟩ := exists_put_of_write hwrite hmade
      exact ⟨location, outcome, hlocate, hfree, rfl, outcome_eq_generated_iff hwrite⟩

end OutputFile

namespace Engine

variable {engine : Engine} {tree after : FileTree} {spec : Spec} {banner : Banner} {path : Text}

/-- The destination of a template that can be read lies where there is a directory. -/
theorem fst_withDirectories_of_renderFile {file : OutputFile}
    (hrender : engine.renderFile tree spec banner path = .ok file) :
    (file.withDirectories tree).1 = tree := by
  obtain ⟨source, body, hdestination, hread, -, -⟩ := renderFile_eq_ok_iff.1 hrender
  obtain ⟨above, template, hsteps, -, hnext, habsolute⟩ :=
    Path.exists_of_destination? hdestination
  obtain ⟨place, hlocate⟩ := FileTree.exists_of_readText? hread
  obtain ⟨directory, habove, hdirectory, -⟩ := FileTree.exists_directory_of_locate? hlocate hsteps
  rw [← FileTree.base_congr habsolute] at habove
  cases hidle : Path.isIdle (Path.destinationName template) with
  | true =>
      -- The destination is the directory of the template, which lies in one.
      rw [Path.leading_singleton_of_isIdle hidle, List.append_nil] at hnext
      rw [← hnext] at habove
      obtain ⟨middle, hmiddle, habove⟩ := FileTree.exists_follow?_dropLast habove hdirectory
      exact OutputFile.fst_withDirectories hmiddle habove
  | false =>
      rw [Path.leading_singleton hidle] at hnext
      have hdrop : (Path.steps file.path).dropLast = above := by
        rw [hnext, List.dropLast_concat]
      exact OutputFile.fst_withDirectories (hdrop ▸ habove) hdirectory

/-! ## One template -/

/-- A template that cannot be expanded is not written. -/
theorem emit_of_expand_error {destination source : Text} {cause : Template.Error}
    (hdestination : Path.destination? path = some destination)
    (hread : tree.readText? path = some source)
    (hexpand : engine.expand path source spec = .error cause) :
    engine.emit tree spec banner path = (tree, .error (.template cause)) := by
  unfold emit renderFile
  rw [hdestination]
  simp only [hread, hexpand]

/-- What is reported of a template that is expanded in a tree: the file is generated exactly if
its destination is missing or holds other bytes. -/
def Reported (engine : Engine) (spec : Spec) (banner : Banner) (tree : FileTree) (path : Text)
    (emission : Emission) : Prop :=
  ∃ file, engine.renderFile tree spec banner path = .ok file ∧ emission.template = path ∧
    emission.destination = file.path ∧ (emission.outcome = .generated ↔ file.IsStale tree)

/-- A template leaves the tree as it is and fails, or one file is put where its destination leads
to. -/
theorem emit_cases (engine : Engine) (tree : FileTree) (spec : Spec) (banner : Banner)
    (path : Text) :
    (∃ cause, engine.emit tree spec banner path = (tree, .error cause)) ∨
      ∃ (file : OutputFile) (location : Location) (emission : Emission),
        Path.destination? path = some file.path ∧ tree.locate? file.path = some location ∧
        tree.isDirectory location = false ∧
        engine.emit tree spec banner path =
          (tree.put location (.file file.bytes), .ok emission) ∧
        engine.Reported spec banner tree path emission := by
  cases hrender : engine.renderFile tree spec banner path with
  | error cause =>
      left
      refine ⟨cause, ?_⟩
      unfold emit
      rw [hrender]
  | ok file =>
      rcases OutputFile.write_cases (fst_withDirectories_of_renderFile hrender) with
        ⟨cause, hwrite⟩ | ⟨location, outcome, hlocate, hfree, hwrite, houtcome⟩
      · left
        refine ⟨.file cause, ?_⟩
        unfold emit
        rw [hrender]
        simp only [hwrite]
      · right
        obtain ⟨-, -, hdestination, -⟩ := renderFile_eq_ok_iff.1 hrender
        exact ⟨file, location, ⟨path, file.path, outcome⟩, hdestination, hlocate, hfree,
          emit_eq_ok_iff.2 ⟨file, outcome, hrender, hwrite, rfl⟩,
          file, hrender, rfl, rfl, houtcome⟩

theorem eq_of_emit_error {cause : EmitError}
    (hemit : engine.emit tree spec banner path = (after, .error cause)) : after = tree := by
  rcases emit_cases engine tree spec banner path with ⟨_, hsame⟩ | ⟨_, _, _, -, -, -, hput, -⟩
  · exact congrArg Prod.fst (hemit.symm.trans hsame)
  · rw [hput] at hemit
    cases hemit

theorem reported_of_emit {emission : Emission}
    (hemit : engine.emit tree spec banner path = (after, .ok emission)) :
    engine.Reported spec banner tree path emission := by
  rcases emit_cases engine tree spec banner path with
    ⟨_, hsame⟩ | ⟨_, _, reported, -, -, -, hput, hreported⟩
  · rw [hsame] at hemit
    cases hemit
  · rw [hput, Prod.mk.injEq, Except.ok.injEq] at hemit
    exact hemit.2 ▸ hreported

/-! ## Several templates -/

/-- The tree after templates have been expanded and written, one after the other. -/
def afterEmitting (engine : Engine) (spec : Spec) (banner : Banner) (tree : FileTree)
    (paths : List Text) : FileTree :=
  paths.foldl (fun tree path => (engine.emit tree spec banner path).1) tree

theorem afterEmitting_cons (engine : Engine) (spec : Spec) (banner : Banner) (tree : FileTree)
    (path : Text) (rest : List Text) :
    engine.afterEmitting spec banner tree (path :: rest) =
      engine.afterEmitting spec banner (engine.emit tree spec banner path).1 rest := rfl

/-- The places to which the destinations of templates lead. -/
def destinationPlaces (tree : FileTree) (paths : List Text) : List Location :=
  (paths.filterMap Path.destination?).filterMap tree.locate?

theorem destinationPlaces_congr (hkeeps : tree.KeepsPlaces after) (paths : List Text) :
    destinationPlaces after paths = destinationPlaces tree paths := by
  unfold destinationPlaces
  rw [funext hkeeps.locate?]

/-- A template changes no place but that of its destination, and no directory. -/
theorem keepsPlaces_emit (engine : Engine) (tree : FileTree) (spec : Spec) (banner : Banner)
    (path : Text) :
    tree.KeepsPlaces (engine.emit tree spec banner path).1 ∧
      ∀ location, location ∉ destinationPlaces tree [path] →
        (engine.emit tree spec banner path).1.get? location = tree.get? location := by
  rcases emit_cases engine tree spec banner path with
    ⟨_, hsame⟩ | ⟨file, place, _, hdestination, hlocate, hfree, hput, -⟩
  · rw [hsame]
    exact ⟨.refl tree, fun _ _ => rfl⟩
  · rw [hput]
    refine ⟨FileTree.keepsPlaces_put_file hfree _, fun location hlocation => ?_⟩
    refine FileTree.get?_put_of_ne (fun heq => hlocation ?_) _
    simp [destinationPlaces, hdestination, hlocate, heq]

/-- Templates change no place but those of their destinations, and no directory. -/
theorem keepsPlaces_afterEmitting (engine : Engine) (spec : Spec) (banner : Banner)
    (tree : FileTree) (paths : List Text) :
    tree.KeepsPlaces (engine.afterEmitting spec banner tree paths) ∧
      ∀ location, location ∉ destinationPlaces tree paths →
        (engine.afterEmitting spec banner tree paths).get? location = tree.get? location := by
  induction paths generalizing tree with
  | nil => exact ⟨.refl tree, fun _ _ => rfl⟩
  | cons path rest ih =>
      obtain ⟨hfirst, hget⟩ := keepsPlaces_emit engine tree spec banner path
      obtain ⟨hrest, hlater⟩ := ih (engine.emit tree spec banner path).1
      rw [destinationPlaces_congr hfirst] at hlater
      rw [afterEmitting_cons]
      refine ⟨hfirst.trans hrest, fun location hlocation => ?_⟩
      have hsplit : destinationPlaces tree (path :: rest) =
          destinationPlaces tree [path] ++ destinationPlaces tree rest := by
        unfold destinationPlaces
        rw [← List.filterMap_append, ← List.filterMap_append, List.singleton_append]
      rw [hsplit, List.mem_append, not_or] at hlocation
      exact (hlater location hlocation.2).trans (hget location hlocation.1)

/-- A run without failure is reported template by template, each in the tree that the templates
before it have left. -/
theorem reported_of_emitAll {paths : List Text} {emissions : List Emission}
    (hrun : engine.emitAll spec banner tree paths = (after, .ok emissions)) :
    after = engine.afterEmitting spec banner tree paths ∧ emissions.length = paths.length ∧
      ∀ i path emission, paths[i]? = some path → emissions[i]? = some emission →
        engine.Reported spec banner (engine.afterEmitting spec banner tree (paths.take i)) path
          emission := by
  induction paths generalizing tree emissions with
  | nil =>
      obtain ⟨rfl, rfl⟩ : tree = after ∧ [] = emissions := by
        simpa [emitAll] using hrun
      exact ⟨rfl, rfl, fun i path emission hpath => by simp at hpath⟩
  | cons first rest ih =>
      obtain ⟨middle, report, others, hemit, hrest, rfl⟩ := emitAll_cons_eq_ok_iff.1 hrun
      obtain ⟨hafter, hlength, hreported⟩ := ih hrest
      have hmiddle : (engine.emit tree spec banner first).1 = middle := congrArg Prod.fst hemit
      refine ⟨?_, by simp [hlength], fun i path emission hpath hemission => ?_⟩
      · rw [afterEmitting_cons, hmiddle]
        exact hafter
      · cases i with
        | zero =>
            obtain rfl : first = path := by simpa using hpath
            obtain rfl : report = emission := by simpa using hemission
            exact reported_of_emit hemit
        | succ i =>
            rw [List.getElem?_cons_succ] at hpath hemission
            rw [List.take_succ_cons, afterEmitting_cons, hmiddle]
            exact hreported i path emission hpath hemission

/-- A run that fails stops at a template which fails in the tree that the templates before it have
left, all of them without failure. -/
theorem exists_of_emitAll_error {paths : List Text} {cause : EmitError}
    (hrun : engine.emitAll spec banner tree paths = (after, .error cause)) :
    ∃ done path rest, paths = done ++ path :: rest ∧
      (∃ emissions, engine.emitAll spec banner tree done = (after, .ok emissions)) ∧
      engine.emit after spec banner path = (after, .error cause) := by
  induction paths generalizing tree with
  | nil => cases hrun
  | cons first others ih =>
      rw [emitAll] at hrun
      rcases hemit : engine.emit tree spec banner first with ⟨middle, result⟩
      cases result with
      | error found =>
          rw [hemit] at hrun
          obtain ⟨rfl, rfl⟩ : middle = after ∧ found = cause := by simpa using hrun
          obtain rfl := eq_of_emit_error hemit
          exact ⟨[], first, others, rfl, ⟨[], rfl⟩, hemit⟩
      | ok emission =>
          rw [hemit] at hrun
          rcases hothers : engine.emitAll spec banner middle others with ⟨last, remaining⟩
          cases remaining with
          | ok emissions =>
              simp [hothers] at hrun
          | error found =>
              obtain ⟨rfl, rfl⟩ : last = after ∧ found = cause := by simpa [hothers] using hrun
              obtain ⟨done, path, rest, rfl, ⟨emissions, hdone⟩, hfail⟩ := ih hothers
              exact ⟨first :: done, path, rest, rfl, ⟨emission :: emissions,
                emitAll_cons_eq_ok_iff.2 ⟨middle, emission, emissions, hemit, hdone, rfl⟩⟩, hfail⟩

/-! ## Whole runs -/

/-- What is left by a run that stops at a template: the templates before it have been emitted
without failure, and nothing else has been done. -/
structure StopsAt (engine : Engine) (spec : Spec) (banner : Banner) (tree after : FileTree)
    (done : List Text) (path : Text) (cause : EmitError) : Prop where
  emitted : ∃ emissions, engine.emitAll spec banner tree done = (after, .ok emissions)
  tree_eq : after = engine.afterEmitting spec banner tree done
  failure : engine.emit after spec banner path = (after, .error cause)
  places : tree.KeepsPlaces after
  get? : ∀ location, location ∉ destinationPlaces tree done →
    after.get? location = tree.get? location

/-- What is left, and reported, by a run that emits all templates. -/
structure Completes (engine : Engine) (spec : Spec) (banner : Banner) (tree after : FileTree)
    (paths : List Text) (emissions : List Emission) : Prop where
  emitted : engine.emitAll spec banner tree paths = (after, .ok emissions)
  tree_eq : after = engine.afterEmitting spec banner tree paths
  places : tree.KeepsPlaces after
  get? : ∀ location, location ∉ destinationPlaces tree paths →
    after.get? location = tree.get? location
  length_eq : emissions.length = paths.length
  reported : ∀ i path emission, paths[i]? = some path → emissions[i]? = some emission →
    engine.Reported spec banner (engine.afterEmitting spec banner tree (paths.take i)) path emission

theorem exists_stopsAt_of_emitAll {paths : List Text} {cause : EmitError}
    (hrun : engine.emitAll spec banner tree paths = (after, .error cause)) :
    ∃ done path rest, paths = done ++ path :: rest ∧
      engine.StopsAt spec banner tree after done path cause := by
  obtain ⟨done, path, rest, rfl, ⟨emissions, hdone⟩, hfailure⟩ := exists_of_emitAll_error hrun
  obtain ⟨hafter, -, -⟩ := reported_of_emitAll hdone
  obtain ⟨hplaces, hget⟩ := keepsPlaces_afterEmitting engine spec banner tree done
  rw [← hafter] at hplaces hget
  exact ⟨done, path, rest, rfl, ⟨emissions, hdone⟩, hafter, hfailure, hplaces, hget⟩

theorem completes_of_emitAll {paths : List Text} {emissions : List Emission}
    (hrun : engine.emitAll spec banner tree paths = (after, .ok emissions)) :
    engine.Completes spec banner tree after paths emissions := by
  obtain ⟨hafter, hlength, hreported⟩ := reported_of_emitAll hrun
  obtain ⟨hplaces, hget⟩ := keepsPlaces_afterEmitting engine spec banner tree paths
  rw [← hafter] at hplaces hget
  exact ⟨hrun, hafter, hplaces, hget, hlength, hreported⟩

/-- Templates are found once, before any of them is emitted. -/
theorem generate_of_templates {options : GenerateOptions} {paths : List Text}
    (hwrites : options.dryRun = false) (hpaths : tree.templates options.root = .ok paths) :
    engine.generate tree spec options =
      ((engine.emitAll spec options.banner tree paths).1,
        (engine.emitAll spec options.banner tree paths).2.map .written) := by
  unfold generate
  rw [hpaths]
  simp only [hwrites, Bool.false_eq_true, if_false]
  rcases engine.emitAll spec options.banner tree paths with ⟨after, result⟩
  cases result with
  | error cause => rfl
  | ok emissions => rfl

/-- A dry run leaves the tree as it is, whether it fails or not. -/
theorem fst_generate_dryRun {options : GenerateOptions} (hdry : options.dryRun = true) :
    (engine.generate tree spec options).1 = tree := by
  unfold generate
  cases tree.templates options.root with
  | error cause => rfl
  | ok paths =>
      simp only [hdry, if_true]

/-- A dry run leaves the tree as it is.  Of the templates that another run finds it emits those
before the first failure, and nothing of the one that fails; or else all of them. -/
theorem generate_emits_until_failure (engine : Engine) (tree : FileTree) (spec : Spec)
    (options : GenerateOptions) :
    (options.dryRun = true → (engine.generate tree spec options).1 = tree) ∧
    (options.dryRun = false → ∀ paths, tree.templates options.root = .ok paths →
      (∀ after cause, engine.generate tree spec options = (after, .error cause) →
        ∃ done path rest, paths = done ++ path :: rest ∧
          engine.StopsAt spec options.banner tree after done path cause) ∧
      ∀ after generation, engine.generate tree spec options = (after, .ok generation) →
        ∃ emissions, generation = .written emissions ∧
          engine.Completes spec options.banner tree after paths emissions) := by
  refine ⟨fst_generate_dryRun, fun hwrites paths hpaths => ?_⟩
  rw [generate_of_templates hwrites hpaths]
  rcases hrun : engine.emitAll spec options.banner tree paths with ⟨last, result⟩
  cases result with
  | error found =>
      refine ⟨fun after cause h => ?_, fun after generation h => by cases h⟩
      obtain ⟨rfl, rfl⟩ : last = after ∧ found = cause := by simpa [Except.map] using h
      exact exists_stopsAt_of_emitAll hrun
  | ok emissions =>
      refine ⟨fun after cause h => (by cases h), fun after generation h => ?_⟩
      obtain ⟨rfl, rfl⟩ : last = after ∧ .written emissions = generation := by
        simpa [Except.map] using h
      exact ⟨emissions, rfl, completes_of_emitAll hrun⟩

end Engine

namespace FileTree

/-- A directory with three templates, the second of which closes a block that is not open. -/
def interrupted : FileTree where
  working := [['w']]
  entries :=
    [([['w']], .directory), ([['w'], "a.dm.c"], .file ⟨#[120, 10]⟩),
      ([['w'], "b.dm.c"],
        .file ⟨#[68, 65, 84, 65, 77, 65, 84, 73, 67, 95, 69, 78, 68, 10]⟩),
      ([['w'], "c.dm.c"], .file ⟨#[120, 10]⟩)]

def interruptedOnce : FileTree := interrupted.put [['w'], "a.c"] (.file ⟨#[120, 10]⟩)

theorem templates_interrupted : interrupted.templates ['.'] =
    .ok [String.toList "./a.dm.c", String.toList "./b.dm.c", String.toList "./c.dm.c"] := by
  have hfiles : interrupted.filesBelow [['w']] =
      [[String.toList "a.dm.c"], [String.toList "b.dm.c"], [String.toList "c.dm.c"]] :=
    filesBelow_of_perm (by decide) (by decide)
  exact (templates_of_filesBelow (by decide) (by decide) hfiles).trans (by decide)

end FileTree

namespace Engine

/-- A marker that closes a block which is not open cannot be expanded. -/
theorem expand_unmatched (engine : Engine) (template : Text) (spec : Spec) :
    engine.expand template "DATAMATIC_END\n" spec =
      .error (Template.errorAt template ⟨1, 0, "DATAMATIC_END"⟩ .unmatchedEnd) := by
  have hlines : Template.sourceLines "DATAMATIC_END\n" = [⟨1, 0, "DATAMATIC_END"⟩] := by
    decide +kernel
  have hmarker : Template.Marker.of "DATAMATIC_END" = .closes [] := by decide
  unfold expand
  rw [hlines, List.foldlM_cons, Template.step_closes_outside hmarker]
  rfl

/-- Only the first template is emitted. -/
theorem generate_interrupted :
    builtin.generate FileTree.interrupted ⟨[], []⟩ ⟨".", Banner.none, false⟩ =
      (FileTree.interruptedOnce, .error
        (.template (Template.errorAt "./b.dm.c" ⟨1, 0, "DATAMATIC_END"⟩ .unmatchedEnd))) := by
  have hfirst : builtin.emit FileTree.interrupted ⟨[], []⟩ Banner.none "./a.dm.c" =
      (FileTree.interruptedOnce, .ok ⟨"./a.dm.c", "./a.c", .generated⟩) :=
    emit_of_write (by decide) (by decide +kernel) (expand_letter builtin _ _) (by decide +kernel)
  have hsecond := @emit_of_expand_error builtin FileTree.interruptedOnce ⟨[], []⟩ Banner.none
    "./b.dm.c" "./b.c" "DATAMATIC_END\n" _ (by decide) (by decide +kernel)
    (expand_unmatched builtin _ _)
  refine (generate_of_templates rfl FileTree.templates_interrupted).trans ?_
  simp only [emitAll, hfirst, hsecond]
  rfl

/-- The run stops at the second template, a run over the directory with one template completes,
and a dry run leaves the tree as it is. -/
theorem generate_interrupted_stopsAt :
    (∃ cause done path rest,
      [String.toList "./a.dm.c", String.toList "./b.dm.c", String.toList "./c.dm.c"] =
        done ++ path :: rest ∧
      builtin.StopsAt ⟨[], []⟩ Banner.none FileTree.interrupted FileTree.interruptedOnce done path
        cause) ∧
    (∃ emissions, builtin.Completes ⟨[], []⟩ Banner.none FileTree.copied FileTree.copiedOnce
      ["./a.dm.c"] emissions) ∧
    (builtin.generate FileTree.interrupted ⟨[], []⟩ ⟨".", Banner.none, true⟩).1 =
      FileTree.interrupted := by
  have hcopied : FileTree.copied.templates ['.'] = .ok [String.toList "./a.dm.c"] := by
    decide +kernel
  obtain ⟨-, hstops⟩ := generate_emits_until_failure builtin FileTree.interrupted ⟨[], []⟩
    ⟨".", Banner.none, false⟩
  obtain ⟨-, hcompletes⟩ := generate_emits_until_failure builtin FileTree.copied ⟨[], []⟩
    ⟨".", Banner.none, false⟩
  obtain ⟨hdry, -⟩ := generate_emits_until_failure builtin FileTree.interrupted ⟨[], []⟩
    ⟨".", Banner.none, true⟩
  obtain ⟨hfailed, -⟩ := hstops rfl _ FileTree.templates_interrupted
  refine ⟨⟨_, hfailed _ _ generate_interrupted⟩, ?_, hdry rfl⟩
  obtain ⟨emissions, -, hall⟩ := (hcompletes rfl _ hcopied).2 _ _ generate_copied
  exact ⟨emissions, hall⟩

end Engine
end Stencil
