import Stencil.CommandLine

namespace Stencil
namespace Main

/-!
# The program

Reads the files that a command may look at, runs the command, and writes the
files that it has changed.
-/

/-- A location as a path from the root. -/
def pathOf (location : Location) : String :=
  "/" ++ String.ofList (Text.joined "/" location)

/-- The directories on the way to a location. -/
def wayTo (location : Location) : List (Location × Entry) :=
  (List.range location.length).map fun k => (location.take (k + 1), .directory)

/-- The file or the directory at a location, with everything below it. -/
partial def load (location : Location) : IO (List (Location × Entry)) := do
  try
    let names := (← (← IO.FS.realPath (pathOf location)).readDir).toList.map (·.fileName)
    let below ← names.mapM fun name => load (location ++ [name.toList])
    return (location, .directory) :: below.flatten
  catch _ =>
    try
      return [(location, .file (← IO.FS.readBinFile (pathOf location)))]
    catch _ => return []

/-- The objects that a path may lead to, with the directories on the way. -/
def loadPath (tree : FileTree) (path : Text) : IO (List (Location × Entry)) := do
  let segments := (Path.segments path).filter fun segment => !Path.isIdle segment
  let location := segments.foldl
    (fun here segment => if Path.isParent segment then here.dropLast else here ++ [segment])
    (tree.base path)
  return wayTo location.dropLast ++ (← load location)

/-- The files and directories that a command may look at. -/
def loadTree (paths : List Text) : IO FileTree := do
  let working := (Path.segments (← IO.currentDir).toString.toList).filter fun segment =>
    !Path.isIdle segment
  let start : FileTree := ⟨working, wayTo working⟩
  let loaded ← paths.mapM (loadPath start)
  return loaded.flatten.foldl (fun tree (location, entry) => tree.put location entry) start

def store (changes : List (Location × Entry)) : IO Unit := do
  for (location, entry) in changes do
    match entry with
    | .directory => IO.FS.createDirAll (pathOf location)
    | .file bytes => IO.FS.writeBinFile (pathOf location) bytes

end Main
end Stencil

open Stencil in
def main (args : List String) : IO UInt32 := do
  let arguments := args.map String.toList
  let paths :=
    match CommandLine.parse arguments with
    | .ok (.check, options) => [options.specPath]
    | .ok (.generate, options) => [options.root, options.specPath]
    | .error _ => []
  let tree ← Main.loadTree paths
  let (changed, result) := CommandLine.run tree arguments
  Main.store (FileTree.changes tree changed)
  IO.print (String.ofList result.output)
  IO.eprint (String.ofList result.errors)
  return result.exitCode.toUInt32
