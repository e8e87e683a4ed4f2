import Stencil.Files.Tree

namespace Stencil

/-!
# Output files

A generated file is written only if the file at its path does not hold the same
bytes already.
-/

/-- Why files are not read or written. -/
inductive FileError where
  | unreadable (path : Text)
  | unwritable (path : Text)
  /-- A directory cannot be searched. -/
  | unsearchable (path : Text)
  deriving DecidableEq, Repr

/-- What has become of a file. -/
inductive WriteOutcome where
  | generated
  | unchanged
  deriving DecidableEq, Repr

/-- A text for a path. -/
structure OutputFile where
  path : Text
  content : Text
  deriving DecidableEq, Repr

namespace OutputFile

def bytes (file : OutputFile) : ByteArray := (String.ofList file.content).toUTF8

/-- Whether the file is there with the same bytes. -/
def upToDate (file : OutputFile) (tree : FileTree) : Except FileError Bool :=
  match tree.find? file.path with
  | none => .ok false
  | some (.file bytes) => .ok (bytes = file.bytes)
  | some .directory => .error (.unreadable file.path)

/-- Makes the directories of the file and puts its bytes there. -/
def store (file : OutputFile) (tree : FileTree) : FileTree × Except FileError WriteOutcome :=
  let (tree, made) :=
    match Path.parent? file.path with
    | some directory => tree.makeDirectories directory
    | none => (tree, true)
  match made, tree.write? file.path file.bytes with
  | true, some tree => (tree, .ok .generated)
  | _, _ => (tree, .error (.unwritable file.path))

/-- Writes the file unless it is up to date. -/
def write (file : OutputFile) (tree : FileTree) : FileTree × Except FileError WriteOutcome :=
  match file.upToDate tree with
  | .error cause => (tree, .error cause)
  | .ok true => (tree, .ok .unchanged)
  | .ok false => file.store tree

end OutputFile
end Stencil
