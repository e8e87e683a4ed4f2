import Stencil.Files.Banner
import Stencil.Files.Output
import Stencil.Spec.Check
import Stencil.Template.Expand

namespace Stencil

/-!
# Generated files

A template file is expanded into the file next to it whose name lacks the mark
of templates.  All templates below a directory are expanded in the order of
their paths; the first failure ends the run, and what was written before stays.
-/

/-- Why a template file is not expanded into its destination. -/
inductive EmitError where
  | notATemplate (path : Text)
  | unreadable (path : Text)
  | template (cause : Template.Error)
  | file (cause : FileError)

/-- What has become of a template file. -/
structure Emission where
  template : Text
  destination : Text
  outcome : WriteOutcome
  deriving DecidableEq, Repr

/-- What a run over a directory is to do. -/
structure GenerateOptions where
  /-- The path that is searched. -/
  root : Text
  banner : Banner
  /-- Expand without writing. -/
  dryRun : Bool

/-- What a run over a directory has done. -/
inductive Generation where
  | written (emissions : List Emission)
  | preview (files : List OutputFile)
  deriving DecidableEq, Repr

namespace Engine

/-- The destination of a template file with its text. -/
def renderFile (engine : Engine) (tree : FileTree) (spec : Spec) (banner : Banner)
    (path : Text) : Except EmitError OutputFile :=
  match Path.destination? path with
  | none => .error (.notATemplate path)
  | some destination =>
      match tree.readText? path with
      | none => .error (.unreadable path)
      | some source =>
          match engine.expand path source spec with
          | .error cause => .error (.template cause)
          | .ok body => .ok ⟨destination, banner.prepend destination body⟩

/-- Expands a template file and writes its destination. -/
def emit (engine : Engine) (tree : FileTree) (spec : Spec) (banner : Banner) (path : Text) :
    FileTree × Except EmitError Emission :=
  match engine.renderFile tree spec banner path with
  | .error cause => (tree, .error cause)
  | .ok file =>
      match file.write tree with
      | (tree, .error cause) => (tree, .error (.file cause))
      | (tree, .ok outcome) => (tree, .ok ⟨path, file.path, outcome⟩)

/-- Expands template files and writes their destinations, up to the first failure. -/
def emitAll (engine : Engine) (spec : Spec) (banner : Banner) :
    FileTree → List Text → FileTree × Except EmitError (List Emission)
  | tree, [] => (tree, .ok [])
  | tree, path :: rest =>
      match engine.emit tree spec banner path with
      | (tree, .error cause) => (tree, .error cause)
      | (tree, .ok emission) =>
          match emitAll engine spec banner tree rest with
          | (tree, .error cause) => (tree, .error cause)
          | (tree, .ok emissions) => (tree, .ok (emission :: emissions))

/-- Expands template files without writing, up to the first failure. -/
def renderAll (engine : Engine) (tree : FileTree) (spec : Spec) (banner : Banner) :
    List Text → Except EmitError (List OutputFile)
  | [] => .ok []
  | path :: rest => do
      let file ← engine.renderFile tree spec banner path
      return file :: (← renderAll engine tree spec banner rest)

end Engine

namespace FileTree

/-- Whether every directory at and below a location can be reached from a path to it. -/
def isSearchable (tree : FileTree) (root : Text) (location : Location) : Bool :=
  (tree.directoriesBelow location).all fun names => Path.isUsable (extend root names)

/-- The paths of the templates at and below a path, in the order of their names. -/
def templates (tree : FileTree) (root : Text) : Except FileError (List Text) :=
  match tree.locate? root with
  | none => .error (.unsearchable root)
  | some location =>
      if (tree.get? location).isSome && tree.isSearchable root location then
        .ok (((tree.filesBelow location).map (extend root)).filter Path.isTemplate)
      else .error (.unsearchable root)

end FileTree

namespace Engine

/-- Expands the templates below a directory. -/
def generate (engine : Engine) (tree : FileTree) (spec : Spec) (options : GenerateOptions) :
    FileTree × Except EmitError Generation :=
  match tree.templates options.root with
  | .error cause => (tree, .error (.file cause))
  | .ok paths =>
      if options.dryRun then
        (tree, (engine.renderAll tree spec options.banner paths).map .preview)
      else
        match engine.emitAll spec options.banner tree paths with
        | (tree, .error cause) => (tree, .error cause)
        | (tree, .ok emissions) => (tree, .ok (.written emissions))

end Engine

namespace Spec

/-- The spec in a file. -/
def load (tree : FileTree) (path : Text) : Except SpecError Spec :=
  match tree.readText? path with
  | none => .error (.unreadable path)
  | some source => Spec.parse source

end Spec
end Stencil
