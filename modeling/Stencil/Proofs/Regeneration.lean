import Stencil.Proofs.Outcome
import Stencil.Proofs.TemplateSearch

namespace Stencil

/-!
# Generating twice

A run over a directory writes next to the templates that it finds.  Where it does
not write a template, it changes nothing that a second run reads, and the second
run expands the same templates to the same texts and puts them in the same places,
which leaves the tree as it is.  What the second run finds at a destination is what
the first run wrote there last, so it reports all files as unchanged exactly if no
two templates have one destination and different texts (`generate_again`).

Destinations can be templates, because only the first mark in a name is taken out:
the destination is expanded in the second run (`generate_again_chained`).
-/

/-! ## Writing a destination -/

namespace FileTree

/-- Every directory lies in a directory. -/
def IsRooted (tree : FileTree) : Prop :=
  ∀ location, tree.isDirectory location = true → tree.isDirectory location.dropLast = true

/-- Only the directories of a tree have to be looked at to see that each lies in one. -/
theorem isRooted_of_entries {tree : FileTree}
    (hentries : ∀ entry ∈ tree.entries, tree.isDirectory entry.1.dropLast = true) :
    tree.IsRooted := by
  intro location hdirectory
  by_cases hroot : location = []
  · rw [hroot]
    rfl
  · have hget := isDirectory_iff.1 hdirectory
    unfold get? at hget
    rw [if_neg (by simp [hroot])] at hget
    obtain ⟨entry, hfind, -⟩ := Option.map_eq_some_iff.1 hget
    have hsame := List.find?_some hfind
    rw [decide_eq_true_eq] at hsame
    rw [← hsame]
    exact hentries entry (List.mem_of_find?_eq_some hfind)

theorem IsRooted.congr {old new : FileTree} (hrooted : old.IsRooted)
    (hkeeps : old.KeepsTemplates new) : new.IsRooted := by
  intro location
  rw [hkeeps.isDirectory, hkeeps.isDirectory]
  exact hrooted location

end FileTree

/-- What is read is in a place. -/
theorem FileTree.exists_of_readText? {tree : FileTree} {path text : Text}
    (hread : tree.readText? path = some text) : ∃ location, tree.locate? path = some location := by
  obtain ⟨bytes, hbytes, -⟩ := Option.bind_eq_some_iff.1 hread
  unfold read? find? at hbytes
  cases hlocate : tree.locate? path with
  | none => simp [hlocate] at hbytes
  | some location => exact ⟨location, rfl⟩

namespace OutputFile

variable {file : OutputFile} {directory : Location} {name : Text}

/-- The directories above a file are there if its steps lead through them. -/
theorem withDirectories_of_follow? {tree : FileTree} {above : List Text}
    (husable : Path.isUsable file.path = true) (hsteps : Path.steps file.path = above ++ [name])
    (habove : tree.follow? (tree.base file.path) above = some directory)
    (hdirectory : tree.isDirectory directory = true) :
    file.withDirectories tree = (tree, true) := by
  obtain ⟨parent, hparent, hmade⟩ :=
    FileTree.makeDirectories_parent husable hsteps habove hdirectory
  unfold withDirectories
  rw [hparent]
  exact hmade

/-- A file that is no template can be put under a name into a directory, where its path leads
to. -/
@[mk_iff]
structure Fits (file : OutputFile) (tree : FileTree) (directory : Location) (name : Text) :
    Prop where
  plain : Path.isTemplate file.path = false
  way : ∃ above, Path.steps file.path = above ++ [name] ∧
    tree.follow? (tree.base file.path) above = some directory
  isDirectory : tree.isDirectory directory = true
  locate : tree.locate? file.path = some (directory ++ [name])
  free : tree.isDirectory (directory ++ [name]) = false

namespace Fits

variable {tree : FileTree}

theorem isPlainName (h : file.Fits tree directory name) : FileTree.IsPlainName name := by
  obtain ⟨above, hsteps, -⟩ := h.way
  have hmem : name ∈ Path.steps file.path := by simp [hsteps]
  exact ⟨Path.slash_not_mem_step hmem, Path.isIdle_of_mem_steps hmem,
    (Path.isTemplate_of_steps hsteps).symm.trans h.plain⟩

/-- Writing the file puts it into the directory. -/
theorem write (h : file.Fits tree directory name) :
    ∃ outcome, file.write tree =
      (tree.put (directory ++ [name]) (.file file.bytes), .ok outcome) := by
  obtain ⟨above, hsteps, habove⟩ := h.way
  have husable := (FileTree.locate?_eq_some_iff.1 h.locate).1
  exact write_of_place h.locate h.free
    (withDirectories_of_follow? husable hsteps habove h.isDirectory)

theorem keepsTemplates (h : file.Fits tree directory name) :
    tree.KeepsTemplates (tree.put (directory ++ [name]) (.file file.bytes)) :=
  FileTree.keepsTemplates_put h.isPlainName h.free file.bytes

theorem congr {old new : FileTree} (hkeeps : old.KeepsTemplates new) :
    file.Fits new directory name ↔ file.Fits old directory name := by
  rw [fits_iff, fits_iff]
  simp only [hkeeps.base, hkeeps.locate?, hkeeps.isDirectory,
    FileTree.follow?_congr hkeeps.isDirectory]

end Fits
end OutputFile

/-- What is reported of the same template when its destination is left unchanged. -/
def Emission.settled (emission : Emission) : Emission := { emission with outcome := .unchanged }

/-! ## Destinations -/

namespace Engine

variable {engine : Engine} {tree after : FileTree} {spec : Spec} {banner : Banner} {path : Text}
variable {file : OutputFile} {outcome : WriteOutcome}

theorem renderFile_eq_ok_iff :
    engine.renderFile tree spec banner path = .ok file ↔
      ∃ source body, Path.destination? path = some file.path ∧ tree.readText? path = some source ∧
        engine.expand path source spec = .ok body ∧
        file.content = banner.prepend file.path body := by
  unfold renderFile
  cases Path.destination? path with
  | none => simp
  | some destination =>
      cases tree.readText? path with
      | none => simp
      | some source =>
          cases hexpand : engine.expand path source spec with
          | error cause => simp [hexpand]
          | ok body =>
              simp only [hexpand, Except.ok.injEq, Option.some.injEq]
              constructor
              · rintro rfl
                exact ⟨source, body, rfl, rfl, hexpand, rfl⟩
              · rintro ⟨_, found, rfl, rfl, hfound, hcontent⟩
                rw [hexpand, Except.ok.injEq] at hfound
                rw [hfound, ← hcontent]

/-- A destination that is written, and is no template, fits next to its template. -/
theorem exists_fits_of_renderFile (hrooted : tree.IsRooted)
    (hrender : engine.renderFile tree spec banner path = .ok file)
    (hwrite : file.write tree = (after, .ok outcome))
    (hplain : Path.isTemplate file.path = false) :
    ∃ directory name, file.Fits tree directory name := by
  obtain ⟨source, body, hdestination, hread, -, -⟩ := renderFile_eq_ok_iff.1 hrender
  obtain ⟨above, template, hsteps, -, hnext, habsolute⟩ :=
    Path.exists_of_destination? hdestination
  obtain ⟨place, hlocate⟩ := FileTree.exists_of_readText? hread
  obtain ⟨directory, habove, hdirectory, -⟩ := FileTree.exists_directory_of_locate? hlocate hsteps
  rw [← FileTree.base_congr habsolute] at habove
  cases hidle : Path.isIdle (Path.destinationName template) with
  | true =>
      -- The destination is the directory of the template.
      rw [Path.leading_singleton_of_isIdle hidle, List.append_nil] at hnext
      rw [OutputFile.isDirectory_of_write hwrite (hnext ▸ habove)] at hdirectory
      cases hdirectory
  | false =>
      rw [Path.leading_singleton hidle] at hnext
      have hmade := OutputFile.withDirectories_of_follow? (OutputFile.isUsable_of_write hwrite)
        hnext habove hdirectory
      obtain ⟨location, hplace, hfree, -⟩ :=
        OutputFile.exists_put_of_write hwrite (congrArg Prod.fst hmade)
      obtain ⟨origin, hway, horigin, hmoved⟩ := FileTree.exists_directory_of_locate? hplace hnext
      rw [FileTree.moved?, if_neg (by simp [hidle])] at hmoved
      cases hparent : Path.isParent (Path.destinationName template) with
      | true =>
          -- The destination is the directory above the template's.
          rw [hparent, if_pos rfl, Option.some.injEq] at hmoved
          rw [← hmoved, hrooted origin horigin] at hfree
          cases hfree
      | false =>
          cases hname : Path.isName (Path.destinationName template) with
          | false => simp [hparent, hname] at hmoved
          | true =>
              rw [hparent, if_neg Bool.false_ne_true, hname, if_pos rfl, Option.some.injEq]
                at hmoved
              subst hmoved
              exact ⟨origin, _, hplain, ⟨above, hnext, hway⟩, horigin, hplace, hfree⟩

/-- Lines outside blocks that are no markers are written. -/
theorem foldlM_step_of_texts {template : Text} {lines : List Template.SourceLine}
    (htext : ∀ line ∈ lines, Template.Marker.of line.text = .text) (output : List Text) :
    lines.foldlM (Template.step template engine spec) ⟨output, none⟩ =
      .ok ⟨output ++ lines.map fun line => Template.written line.text, none⟩ := by
  induction lines generalizing output with
  | nil => simp [pure, Except.pure]
  | cons line rest ih =>
      rw [List.forall_mem_cons] at htext
      rw [List.foldlM_cons, Template.step_text_outside htext.1]
      show rest.foldlM (Template.step template engine spec) _ = _
      rw [ih htext.2]
      simp

/-- A template without markers is copied. -/
theorem expand_of_text {template source : Text}
    (htext : ∀ line ∈ Template.sourceLines source, Template.Marker.of line.text = .text) :
    engine.expand template source spec =
      .ok ((Template.sourceLines source).flatMap fun line => Template.written line.text) := by
  unfold expand
  rw [foldlM_step_of_texts htext]
  show Except.ok (List.flatten ([] ++ _)) = _
  rw [List.nil_append, List.flatMap_def]

/-! ## Runs -/

theorem emit_eq_ok_iff {emission : Emission} :
    engine.emit tree spec banner path = (after, .ok emission) ↔
      ∃ file outcome, engine.renderFile tree spec banner path = .ok file ∧
        file.write tree = (after, .ok outcome) ∧ emission = ⟨path, file.path, outcome⟩ := by
  unfold emit
  cases hrender : engine.renderFile tree spec banner path with
  | error cause => simp
  | ok file =>
      rcases hwrite : file.write tree with ⟨middle, result⟩
      cases result with
      | error cause => simp [hwrite]
      | ok outcome =>
          simp only [hwrite, Prod.mk.injEq, Except.ok.injEq]
          constructor
          · rintro ⟨rfl, rfl⟩
            exact ⟨file, outcome, rfl, hwrite, rfl⟩
          · rintro ⟨_, found, rfl, hfound, rfl⟩
            rw [hwrite, Prod.mk.injEq, Except.ok.injEq] at hfound
            exact ⟨hfound.1, by rw [hfound.2]⟩

theorem emit_of_write {destination source body : Text}
    (hdestination : Path.destination? path = some destination)
    (hread : tree.readText? path = some source)
    (hexpand : engine.expand path source spec = .ok body)
    (hwrite : OutputFile.write ⟨destination, banner.prepend destination body⟩ tree =
      (after, .ok outcome)) :
    engine.emit tree spec banner path = (after, .ok ⟨path, destination, outcome⟩) :=
  emit_eq_ok_iff.2 ⟨_, outcome,
    renderFile_eq_ok_iff.2 ⟨source, body, hdestination, hread, hexpand, rfl⟩, hwrite, rfl⟩

theorem emitAll_cons_eq_ok_iff {rest : List Text} {emissions : List Emission} :
    engine.emitAll spec banner tree (path :: rest) = (after, .ok emissions) ↔
      ∃ middle emission others, engine.emit tree spec banner path = (middle, .ok emission) ∧
        engine.emitAll spec banner middle rest = (after, .ok others) ∧
        emissions = emission :: others := by
  rw [emitAll]
  rcases hemit : engine.emit tree spec banner path with ⟨middle, result⟩
  cases result with
  | error cause => simp
  | ok emission =>
      rcases hrest : engine.emitAll spec banner middle rest with ⟨last, remaining⟩
      cases remaining with
      | error cause => simp [hrest]
      | ok others =>
          simp only [hrest, Prod.mk.injEq, Except.ok.injEq]
          constructor
          · rintro ⟨rfl, rfl⟩
            exact ⟨middle, emission, others, ⟨rfl, rfl⟩, hrest, rfl⟩
          · rintro ⟨_, _, found, ⟨rfl, rfl⟩, hfound, rfl⟩
            rw [hrest, Prod.mk.injEq, Except.ok.injEq] at hfound
            exact ⟨hfound.1, by rw [hfound.2]⟩

theorem renderAll_cons_eq_ok_iff {rest : List Text} {files : List OutputFile} :
    engine.renderAll tree spec banner (path :: rest) = .ok files ↔
      ∃ file others, engine.renderFile tree spec banner path = .ok file ∧
        engine.renderAll tree spec banner rest = .ok others ∧ files = file :: others := by
  simp only [renderAll, Outcome.bind_eq_ok_iff, pure, Except.pure, Except.ok.injEq]
  constructor
  · rintro ⟨file, hfile, others, hothers, rfl⟩
    exact ⟨file, others, hfile, hothers, rfl⟩
  · rintro ⟨file, others, hfile, hothers, rfl⟩
    exact ⟨file, hfile, others, hothers, rfl⟩

/-- Templates are expanded to the same files in a tree with the same templates. -/
theorem renderFile_congr (hkeeps : tree.KeepsTemplates after) (path : Text) :
    engine.renderFile after spec banner path = engine.renderFile tree spec banner path := by
  unfold renderFile
  cases hdestination : Path.destination? path with
  | none => rfl
  | some destination =>
      obtain ⟨above, name, hsteps, hmark, -⟩ := Path.exists_of_destination? hdestination
      have htemplate : Path.isTemplate path = true := (Path.isTemplate_of_steps hsteps).trans hmark
      rw [hkeeps.readText? htemplate]

theorem renderAll_congr (hkeeps : tree.KeepsTemplates after) (paths : List Text) :
    engine.renderAll after spec banner paths = engine.renderAll tree spec banner paths := by
  induction paths with
  | nil => rfl
  | cons path rest ih => rw [renderAll, renderAll, renderFile_congr hkeeps, ih]

/-- The report of a run that leaves all files unchanged. -/
def unchanged (paths : List Text) (files : List OutputFile) : List Emission :=
  List.zipWith (fun path file => ⟨path, file.path, .unchanged⟩) paths files

theorem forall_outcome_iff {emissions : List Emission} :
    (∀ emission ∈ emissions, emission.outcome = .unchanged) ↔
      emissions.map Emission.settled = emissions := by
  have hfixed : ∀ emission : Emission, emission.outcome = .unchanged ↔
      emission.settled = id emission := by
    rintro ⟨template, destination, outcome⟩
    simp [Emission.settled, eq_comm]
  rw [forall₂_congr fun emission _ => hfixed emission, ← List.map_inj_left, List.map_id]

/-- A run leaves its files unchanged exactly if they are there. -/
theorem emitAll_eq_unchanged_iff {paths : List Text} {files : List OutputFile}
    (hfiles : engine.renderAll tree spec banner paths = .ok files) :
    engine.emitAll spec banner tree paths = (tree, .ok (unchanged paths files)) ↔
      ∀ file ∈ files, tree.find? file.path = some (.file file.bytes) := by
  induction paths generalizing files with
  | nil =>
      obtain rfl : [] = files := Except.ok.inj hfiles
      simp [emitAll, unchanged]
  | cons path rest ih =>
      obtain ⟨file, others, hfile, hothers, rfl⟩ := renderAll_cons_eq_ok_iff.1 hfiles
      rw [List.forall_mem_cons, ← ih hothers, emitAll_cons_eq_ok_iff]
      constructor
      · rintro ⟨middle, emission, found, hemit, hrest, hcons⟩
        obtain ⟨rfl, rfl⟩ := List.cons.inj hcons
        obtain ⟨_, outcome, hrender, hwrite, hemission⟩ := emit_eq_ok_iff.1 hemit
        rw [hfile, Except.ok.injEq] at hrender
        subst hrender
        simp only [Emission.mk.injEq] at hemission
        rw [← hemission.2.2] at hwrite
        obtain ⟨rfl, hfind⟩ := OutputFile.write_eq_unchanged_iff.1 hwrite
        exact ⟨hfind, hrest⟩
      · rintro ⟨hfind, hrest⟩
        have hwrite := OutputFile.write_eq_unchanged_iff.2 ⟨rfl, hfind⟩
        exact ⟨tree, _, _, emit_eq_ok_iff.2 ⟨file, _, hfile, hwrite, rfl⟩, hrest, rfl⟩

/-- The places of files in a tree, with what is put there. -/
def placements (tree : FileTree) (files : List OutputFile) : List (Location × ByteArray) :=
  files.filterMap fun file => (tree.locate? file.path).map fun location => (location, file.bytes)

theorem placements_cons {location : Location} {files : List OutputFile}
    (hlocate : tree.locate? file.path = some location) :
    placements tree (file :: files) = (location, file.bytes) :: placements tree files := by
  unfold placements
  rw [List.filterMap_cons, hlocate]
  rfl

theorem mem_placements {files : List OutputFile} {item : Location × ByteArray} :
    item ∈ placements tree files ↔
      ∃ file ∈ files, tree.locate? file.path = some item.1 ∧ file.bytes = item.2 := by
  unfold placements
  rw [List.mem_filterMap]
  refine exists_congr fun file => and_congr_right fun _ => ?_
  rw [Option.map_eq_some_iff]
  constructor
  · rintro ⟨location, hlocate, rfl⟩
    exact ⟨hlocate, rfl⟩
  · rintro ⟨hlocate, hbytes⟩
    exact ⟨item.1, hlocate, Prod.ext rfl hbytes⟩

/-- Every file can be put where its path leads to, and none is a template. -/
def AllFit (tree : FileTree) (files : List OutputFile) : Prop :=
  ∀ file ∈ files, ∃ directory name, file.Fits tree directory name

theorem AllFit.ne_nil {files : List OutputFile} (hfits : AllFit tree files) :
    ∀ item ∈ placements tree files, item.1 ≠ [] := by
  intro item hitem
  obtain ⟨file, hfile, hlocate, -⟩ := mem_placements.1 hitem
  obtain ⟨directory, name, hfit⟩ := hfits file hfile
  rw [hfit.locate, Option.some.injEq] at hlocate
  simp [← hlocate]

/-- Files that fit leave the templates as they are. -/
theorem AllFit.keepsTemplates {base : FileTree} {files : List OutputFile}
    (hfits : AllFit base files) (hkeeps : base.KeepsTemplates tree) :
    base.KeepsTemplates (tree.putFiles (placements base files)) := by
  induction files generalizing tree with
  | nil => exact hkeeps
  | cons file rest ih =>
      obtain ⟨⟨directory, name, hfit⟩, hrest⟩ := List.forall_mem_cons.1 hfits
      rw [placements_cons hfit.locate, FileTree.putFiles_cons]
      exact ih hrest (hkeeps.trans ((OutputFile.Fits.congr hkeeps).2 hfit).keepsTemplates)

/-- A run that writes no template expands the templates to files that fit. -/
theorem exists_allFit_of_emitAll {base : FileTree} {paths : List Text}
    {emissions : List Emission} (hrooted : base.IsRooted) (hkeeps : base.KeepsTemplates tree)
    (hrun : engine.emitAll spec banner tree paths = (after, .ok emissions))
    (hplain : ∀ emission ∈ emissions, Path.isTemplate emission.destination = false) :
    ∃ files, engine.renderAll base spec banner paths = .ok files ∧ AllFit base files := by
  induction paths generalizing tree emissions with
  | nil => exact ⟨[], rfl, fun _ hfile => by cases hfile⟩
  | cons path rest ih =>
      obtain ⟨middle, emission, others, hemit, hrest, rfl⟩ := emitAll_cons_eq_ok_iff.1 hrun
      rw [List.forall_mem_cons] at hplain
      obtain ⟨file, outcome, hfile, hwrite, rfl⟩ := emit_eq_ok_iff.1 hemit
      obtain ⟨directory, name, hfit⟩ :=
        exists_fits_of_renderFile (hrooted.congr hkeeps) hfile hwrite hplain.1
      obtain ⟨_, hput⟩ := hfit.write
      obtain rfl : middle = _ := congrArg Prod.fst (hwrite.symm.trans hput)
      obtain ⟨files, hfiles, hfits⟩ := ih (hkeeps.trans hfit.keepsTemplates) hrest hplain.2
      rw [renderFile_congr hkeeps] at hfile
      refine ⟨file :: files, renderAll_cons_eq_ok_iff.2 ⟨file, files, hfile, hfiles, rfl⟩, ?_⟩
      exact List.forall_mem_cons.2 ⟨⟨directory, name, (OutputFile.Fits.congr hkeeps).1 hfit⟩, hfits⟩

/-- Files that fit can be written into every tree with the same templates. -/
theorem exists_emitAll_of_allFit {base : FileTree} {paths : List Text} {files : List OutputFile}
    (hfiles : engine.renderAll base spec banner paths = .ok files) (hfits : AllFit base files)
    (hkeeps : base.KeepsTemplates tree) :
    ∃ emissions, engine.emitAll spec banner tree paths =
        (tree.putFiles (placements base files), .ok emissions) ∧
      emissions.map Emission.settled = unchanged paths files := by
  induction paths generalizing tree files with
  | nil =>
      obtain rfl : [] = files := Except.ok.inj hfiles
      exact ⟨[], rfl, rfl⟩
  | cons path rest ih =>
      obtain ⟨file, others, hfile, hothers, rfl⟩ := renderAll_cons_eq_ok_iff.1 hfiles
      obtain ⟨⟨directory, name, hfit⟩, hrest⟩ := List.forall_mem_cons.1 hfits
      have hfit' := (OutputFile.Fits.congr hkeeps).2 hfit
      obtain ⟨outcome, hwrite⟩ := hfit'.write
      obtain ⟨emissions, hrun, hreport⟩ := ih hothers hrest (hkeeps.trans hfit'.keepsTemplates)
      refine ⟨⟨path, file.path, outcome⟩ :: emissions, emitAll_cons_eq_ok_iff.2 ?_, ?_⟩
      · rw [placements_cons hfit.locate, FileTree.putFiles_cons]
        refine ⟨_, _, emissions, emit_eq_ok_iff.2 ⟨file, outcome, ?_, hwrite, rfl⟩, hrun, rfl⟩
        rwa [renderFile_congr hkeeps]
      · rw [List.map_cons, hreport]
        rfl

/-- All files are there in the end exactly if those in one place have the same text. -/
theorem AllFit.forall_find?_iff {files : List OutputFile} (hfits : AllFit tree files) :
    (∀ file ∈ files,
        (tree.putFiles (placements tree files)).find? file.path = some (.file file.bytes)) ↔
      ∀ f ∈ files, ∀ g ∈ files, tree.locate? f.path = tree.locate? g.path →
        f.content = g.content := by
  have hsame := (hfits.keepsTemplates (.refl tree)).locate?
  constructor
  · intro hall f hf g hg hplace
    have hbytes := hall g hg
    rw [FileTree.find?, hsame, ← hplace, ← hsame, ← FileTree.find?, hall f hf, Option.some.injEq,
      Entry.file.injEq] at hbytes
    exact OutputFile.bytes_inj.1 hbytes
  · intro hagree file hfile
    obtain ⟨directory, name, hfit⟩ := hfits file hfile
    have hitem : (directory ++ [name], file.bytes) ∈ placements tree files :=
      mem_placements.2 ⟨file, hfile, hfit.locate, rfl⟩
    obtain ⟨⟨location, bytes⟩, hother, rfl, hget⟩ :=
      FileTree.exists_get?_putFiles hfits.ne_nil hitem
    obtain ⟨other, hmem, hlocate, rfl⟩ := mem_placements.1 hother
    have hcontent := hagree other hmem file hfile (hlocate.trans hfit.locate.symm)
    rw [FileTree.find?, hsame, hfit.locate, ← OutputFile.bytes_inj.2 hcontent]
    exact hget

/-! ## Two runs -/

theorem generate_eq_written_iff {root : Text} {emissions : List Emission} :
    engine.generate tree spec ⟨root, banner, false⟩ = (after, .ok (.written emissions)) ↔
      ∃ paths, tree.templates root = .ok paths ∧
        engine.emitAll spec banner tree paths = (after, .ok emissions) := by
  unfold generate
  cases htemplates : tree.templates root with
  | error cause => simp
  | ok paths =>
      rcases hrun : engine.emitAll spec banner tree paths with ⟨middle, result⟩
      cases result with
      | error cause => simp [hrun]
      | ok found => simp [hrun]

theorem generate_eq_preview_iff {root : Text} {files : List OutputFile} :
    engine.generate tree spec ⟨root, banner, true⟩ = (tree, .ok (.preview files)) ↔
      ∃ paths, tree.templates root = .ok paths ∧
        engine.renderAll tree spec banner paths = .ok files := by
  unfold generate
  cases htemplates : tree.templates root with
  | error cause => simp
  | ok paths => simp

/-- After a run over a tree whose directories lie in directories, and which writes no template, a
second run succeeds on the same templates and leaves the tree as it is.  It reports all files as
unchanged exactly if templates with one destination are expanded to the same text. -/
theorem generate_again {root : Text} {emissions : List Emission} (hrooted : tree.IsRooted)
    (hrun : engine.generate tree spec ⟨root, banner, false⟩ = (after, .ok (.written emissions)))
    (hplain : ∀ emission ∈ emissions, Path.isTemplate emission.destination = false) :
    ∃ files again, engine.generate tree spec ⟨root, banner, true⟩ = (tree, .ok (.preview files)) ∧
      engine.generate after spec ⟨root, banner, false⟩ = (after, .ok (.written again)) ∧
      again.map Emission.settled = emissions.map Emission.settled ∧
      ((∀ emission ∈ again, emission.outcome = .unchanged) ↔
        ∀ f ∈ files, ∀ g ∈ files, tree.locate? f.path = tree.locate? g.path →
          f.content = g.content) := by
  obtain ⟨paths, htemplates, hemit⟩ := generate_eq_written_iff.1 hrun
  obtain ⟨files, hfiles, hfits⟩ := exists_allFit_of_emitAll hrooted (.refl tree) hemit hplain
  -- The first run puts the files that are previewed.
  obtain ⟨found, hfound, hreport⟩ := exists_emitAll_of_allFit hfiles hfits (.refl tree)
  rw [hemit, Prod.mk.injEq, Except.ok.injEq] at hfound
  obtain ⟨hafter, rfl⟩ := hfound
  have hkeeps : tree.KeepsTemplates after := hafter ▸ hfits.keepsTemplates (.refl tree)
  -- The second run puts them once more.
  obtain ⟨again, hagain, hsettled⟩ := exists_emitAll_of_allFit hfiles hfits hkeeps
  have hfixed : after.putFiles (placements tree files) = after := by
    rw [hafter, FileTree.putFiles_putFiles hfits.ne_nil]
  rw [hfixed] at hagain
  have hsame : engine.renderAll after spec banner paths = .ok files :=
    (renderAll_congr hkeeps paths).trans hfiles
  refine ⟨files, again, generate_eq_preview_iff.2 ⟨paths, htemplates, hfiles⟩,
    generate_eq_written_iff.2 ⟨paths, hkeeps.templates root paths htemplates, hagain⟩,
    hsettled.trans hreport.symm, ?_⟩
  rw [← hfits.forall_find?_iff, ← hafter, ← emitAll_eq_unchanged_iff hsame, hagain,
    forall_outcome_iff, hsettled, Prod.mk.injEq, Except.ok.injEq, and_iff_right rfl]
  exact eq_comm

end Engine

namespace FileTree

/-- A directory with one template. -/
def copied : FileTree where
  working := [['w']]
  entries := [([['w']], .directory), ([['w'], "a.dm.c"], .file ⟨#[120, 10]⟩)]

def copiedOnce : FileTree := copied.put [['w'], "a.c"] (.file ⟨#[120, 10]⟩)

/-- A directory with two templates, one of which is the destination of the other. -/
def chained : FileTree where
  working := [['w']]
  entries :=
    [([['w']], .directory), ([['w'], "a.dm.c"], .file ByteArray.empty),
      ([['w'], "a.dm.dm.c"], .file ⟨#[120, 10]⟩)]

def chainedOnce : FileTree :=
  (chained.put [['w'], "a.c"] (.file ByteArray.empty)).put [['w'], "a.dm.c"]
    (.file ⟨#[120, 10]⟩)

def chainedTwice : FileTree := chainedOnce.put [['w'], "a.c"] (.file ⟨#[120, 10]⟩)

theorem templates_chained : chained.templates ['.'] =
    .ok [String.toList "./a.dm.c", String.toList "./a.dm.dm.c"] := by
  have hfiles : chained.filesBelow [['w']] =
      [[String.toList "a.dm.c"], [String.toList "a.dm.dm.c"]] :=
    filesBelow_of_perm (by decide) (by decide)
  exact (templates_of_filesBelow (by decide) (by decide) hfiles).trans (by decide)

theorem templates_chainedOnce : chainedOnce.templates ['.'] =
    .ok [String.toList "./a.dm.c", String.toList "./a.dm.dm.c"] := by
  have hfiles : chainedOnce.filesBelow [['w']] =
      [[String.toList "a.c"], [String.toList "a.dm.c"], [String.toList "a.dm.dm.c"]] :=
    filesBelow_of_perm (by decide) (by decide)
  exact (templates_of_filesBelow (by decide) (by decide) hfiles).trans (by decide)

end FileTree

namespace Engine

theorem expand_letter (engine : Engine) (template : Text) (spec : Spec) :
    engine.expand template ['x', '\n'] spec = .ok ['x', '\n'] := by
  have hlines : Template.sourceLines ['x', '\n'] = [⟨1, 0, ['x']⟩] := by decide +kernel
  rw [expand_of_text, hlines]
  · rfl
  · rw [hlines, List.forall_mem_singleton]
    decide

theorem generate_copied : builtin.generate FileTree.copied ⟨[], []⟩ ⟨".", Banner.none, false⟩ =
    (FileTree.copiedOnce, .ok (.written [⟨"./a.dm.c", "./a.c", .generated⟩])) := by
  have hemit : builtin.emit FileTree.copied ⟨[], []⟩ Banner.none "./a.dm.c" =
      (FileTree.copiedOnce, .ok ⟨"./a.dm.c", "./a.c", .generated⟩) :=
    emit_of_write (by decide) (by decide +kernel) (expand_letter builtin _ _) (by decide +kernel)
  refine generate_eq_written_iff.2 ⟨[String.toList "./a.dm.c"], by decide +kernel, ?_⟩
  exact emitAll_cons_eq_ok_iff.2 ⟨_, _, [], hemit, rfl, rfl⟩

/-- The copy of a template is left unchanged. -/
theorem generate_again_copied :
    builtin.generate FileTree.copiedOnce ⟨[], []⟩ ⟨".", Banner.none, false⟩ =
      (FileTree.copiedOnce, .ok (.written [⟨"./a.dm.c", "./a.c", .unchanged⟩])) := by
  have hrooted : FileTree.copied.IsRooted := FileTree.isRooted_of_entries (by decide)
  obtain ⟨files, again, hpreview, hagain, hsettled, hunchanged⟩ :=
    generate_again hrooted generate_copied (by decide)
  obtain ⟨paths, hpaths, hfiles⟩ := generate_eq_preview_iff.1 hpreview
  have htemplates : FileTree.copied.templates ['.'] = .ok [String.toList "./a.dm.c"] := by
    decide +kernel
  obtain rfl := Except.ok.inj (hpaths.symm.trans htemplates)
  obtain ⟨file, others, -, hothers, rfl⟩ := renderAll_cons_eq_ok_iff.1 hfiles
  obtain rfl := Except.ok.inj hothers
  have hall := hunchanged.2 fun f hf g hg _ => by
    rw [List.mem_singleton.1 hf, List.mem_singleton.1 hg]
  rw [hagain, ← forall_outcome_iff.1 hall, hsettled]
  rfl

/-- A template that is a destination is overwritten, and expanded to something else in the second
run. -/
theorem generate_again_chained :
    FileTree.chained.IsRooted ∧
      builtin.generate FileTree.chained ⟨[], []⟩ ⟨".", Banner.none, false⟩ =
        (FileTree.chainedOnce, .ok (.written
          [⟨"./a.dm.c", "./a.c", .generated⟩, ⟨"./a.dm.dm.c", "./a.dm.c", .generated⟩])) ∧
      builtin.generate FileTree.chainedOnce ⟨[], []⟩ ⟨".", Banner.none, false⟩ =
        (FileTree.chainedTwice, .ok (.written
          [⟨"./a.dm.c", "./a.c", .generated⟩, ⟨"./a.dm.dm.c", "./a.dm.c", .unchanged⟩])) ∧
      FileTree.chainedTwice.find? "./a.c" ≠ FileTree.chainedOnce.find? "./a.c" := by
  have hread : FileTree.chained.readText? "./a.dm.c" = some [] := by decide +kernel
  have hfirst : builtin.emit FileTree.chained ⟨[], []⟩ Banner.none "./a.dm.c" =
      (FileTree.chained.put [['w'], "a.c"] (.file ByteArray.empty),
        .ok ⟨"./a.dm.c", "./a.c", .generated⟩) :=
    emit_of_write (by decide) hread (expand_of_text (by decide)) (by decide +kernel)
  have hsecond : builtin.emit (FileTree.chained.put [['w'], "a.c"] (.file ByteArray.empty)) ⟨[], []⟩
      Banner.none "./a.dm.dm.c" =
        (FileTree.chainedOnce, .ok ⟨"./a.dm.dm.c", "./a.dm.c", .generated⟩) :=
    emit_of_write (by decide) (by decide +kernel) (expand_letter builtin _ _) (by decide +kernel)
  have hthird : builtin.emit FileTree.chainedOnce ⟨[], []⟩ Banner.none "./a.dm.c" =
      (FileTree.chainedTwice, .ok ⟨"./a.dm.c", "./a.c", .generated⟩) :=
    emit_of_write (by decide) (by decide +kernel) (expand_letter builtin _ _) (by decide +kernel)
  have hfourth : builtin.emit FileTree.chainedTwice ⟨[], []⟩ Banner.none "./a.dm.dm.c" =
      (FileTree.chainedTwice, .ok ⟨"./a.dm.dm.c", "./a.dm.c", .unchanged⟩) :=
    emit_of_write (by decide) (by decide +kernel) (expand_letter builtin _ _) (by decide +kernel)
  refine ⟨FileTree.isRooted_of_entries (by decide), ?_, ?_, by decide⟩
  · refine generate_eq_written_iff.2 ⟨_, FileTree.templates_chained, ?_⟩
    exact emitAll_cons_eq_ok_iff.2
      ⟨_, _, _, hfirst, emitAll_cons_eq_ok_iff.2 ⟨_, _, [], hsecond, rfl, rfl⟩, rfl⟩
  · refine generate_eq_written_iff.2 ⟨_, FileTree.templates_chainedOnce, ?_⟩
    exact emitAll_cons_eq_ok_iff.2
      ⟨_, _, _, hthird, emitAll_cons_eq_ok_iff.2 ⟨_, _, [], hfourth, rfl, rfl⟩, rfl⟩

end Engine
end Stencil
