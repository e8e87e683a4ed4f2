import Stencil.Files.Path

namespace Stencil

/-!
# File trees

A file tree gives every location a file or a directory; the location of an
object is the list of the names that lead to it from the root, which is always
a directory.  Paths are followed from the root or from the working directory,
and every step, even an idle one, starts at a directory.
-/

/-- The names that lead from the root to an object. -/
abbrev Location := List Text

/-- Files are compared byte by byte. -/
instance decidableEqBytes : DecidableEq ByteArray := ByteArray.decEq

inductive Entry where
  | file (bytes : ByteArray)
  | directory
  deriving DecidableEq

/-- The objects below the root, and the working directory. -/
structure FileTree where
  working : Location
  entries : List (Location × Entry)

namespace FileTree

def get? (tree : FileTree) (location : Location) : Option Entry :=
  if location.isEmpty then some .directory
  else (tree.entries.find? fun entry => entry.1 = location).map (·.2)

/-- Whether there is a directory at a location. -/
def isDirectory (tree : FileTree) (location : Location) : Bool :=
  match tree.get? location with
  | some .directory => true
  | _ => false

/-- Puts an object at a location, in the place of the one before. -/
def putIn (location : Location) (entry : Entry) :
    List (Location × Entry) → List (Location × Entry)
  | [] => [(location, entry)]
  | (other, old) :: rest =>
      if other = location then (location, entry) :: rest
      else (other, old) :: putIn location entry rest

def put (tree : FileTree) (location : Location) (entry : Entry) : FileTree :=
  { tree with entries := putIn location entry tree.entries }

/-- The location that segments lead to. -/
def follow? (tree : FileTree) : Location → List Text → Option Location
  | here, [] => some here
  | here, segment :: rest =>
      if !tree.isDirectory here then none
      else if Path.isIdle segment then follow? tree here rest
      else if Path.isParent segment then follow? tree here.dropLast rest
      else if Path.isName segment then follow? tree (here ++ [segment]) rest
      else none

/-- Where the segments of a path begin. -/
def base (tree : FileTree) (path : Text) : Location :=
  if path.head? = some '/' then [] else tree.working

/-- The location that a path leads to; there need not be anything. -/
def locate? (tree : FileTree) (path : Text) : Option Location :=
  if Path.isUsable path then tree.follow? (tree.base path) (Path.segments path) else none

/-- The object that a path leads to. -/
def find? (tree : FileTree) (path : Text) : Option Entry :=
  (tree.locate? path).bind tree.get?

/-- Whether a path leads to an object. -/
def exists? (tree : FileTree) (path : Text) : Bool := (tree.find? path).isSome

/-- The bytes of the file that a path leads to. -/
def read? (tree : FileTree) (path : Text) : Option ByteArray :=
  match tree.find? path with
  | some (.file bytes) => some bytes
  | _ => none

/-- The text of bytes that are UTF-8. -/
def decode? (bytes : ByteArray) : Option Text := bytes.utf8Decode?.map Array.toList

/-- The text of the file that a path leads to. -/
def readText? (tree : FileTree) (path : Text) : Option Text := (tree.read? path).bind decode?

/-- Writes a file into an existing directory. -/
def write? (tree : FileTree) (path : Text) (bytes : ByteArray) : Option FileTree :=
  match tree.locate? path with
  | none => none
  | some location =>
      if tree.isDirectory location then none else some (tree.put location (.file bytes))

/-- Makes the missing directories on the way along segments, up to the first file that is
in the way or the first segment that is too long for a name. -/
def makeWay (tree : FileTree) : Location → List Text → FileTree × Bool
  | _, [] => (tree, true)
  | here, segment :: rest =>
      if Path.isIdle segment then makeWay tree here rest
      else if Path.isParent segment then makeWay tree here.dropLast rest
      else if !Path.isName segment then (tree, false)
      else
        let next := here ++ [segment]
        match tree.get? next with
        | some .directory => makeWay tree next rest
        | some (.file _) => (tree, false)
        | none => makeWay (tree.put next .directory) next rest

/-- Makes a directory and the missing ones above it; the empty path asks for nothing.  A path
that ends in `.` only leads to a directory that is there, and what it makes is the way to it. -/
def makeDirectories (tree : FileTree) (path : Text) : FileTree × Bool :=
  if path.isEmpty then (tree, true)
  else if !Path.isUsable path then (tree, false)
  else if Path.endsInDot path then
    let above := (Path.parent? path).getD []
    let (tree, made) := tree.makeWay (tree.base path) (Path.segments above)
    (tree, made && tree.find? path == some .directory)
  else tree.makeWay (tree.base path) (Path.segments path)

/-- Removes the file that a path leads to. -/
def removeFile? (tree : FileTree) (path : Text) : Option FileTree :=
  match tree.locate? path, tree.read? path with
  | some location, some _ =>
      some { tree with entries := tree.entries.filter fun entry => entry.1 ≠ location }
  | _, _ => none

/-- The names that lead from one location to another below it. -/
def below? (top location : Location) : Option (List Text) := top.isPrefixOf? location

/-- The ways from a location to the files at it and below it, in the order of their names. -/
def filesBelow (tree : FileTree) (top : Location) : List (List Text) :=
  let found := tree.entries.filterMap fun (location, entry) =>
    match entry with
    | .file _ => below? top location
    | .directory => none
  found.mergeSort fun a b => !List.lex b a Text.precedes

/-- The ways from a location to the directories at it and below it. -/
def directoriesBelow (tree : FileTree) (top : Location) : List (List Text) :=
  tree.entries.filterMap fun (location, entry) =>
    match entry with
    | .file _ => none
    | .directory => below? top location

/-- A path followed by names. -/
def extend (path : Text) : List Text → Text
  | [] => path
  | name :: rest => extend (Path.join path name) rest

/-- The relative paths of the objects below the working directory, directories with a slash
at the end, in the order of these texts. -/
def listing (tree : FileTree) : List (Text × Entry) :=
  let found := tree.entries.filterMap fun (location, entry) =>
    (below? tree.working location).bind fun names =>
      match names, entry with
      | [], _ => none
      | names, .file bytes => some (Text.joined "/" names, .file bytes)
      | names, .directory => some (Text.joined "/" names ++ "/", .directory)
  found.mergeSort fun a b => !Text.precedes b.1 a.1

/-- The objects that a tree has and an older one does not have, or has otherwise. -/
def changes (old new : FileTree) : List (Location × Entry) :=
  new.entries.filter fun (location, entry) => old.get? location ≠ some entry

end FileTree
end Stencil
