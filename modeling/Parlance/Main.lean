import Parlance.CommandLine.Run

/-!
The program. What a request touches is read from the disk into a tree of files, the request is run
on the tree, and the files that have changed are written back.
-/

namespace Parlance

/-- The paths that a request reads or writes, and whether all that lies under them matters. -/
def Request.paths (request : Request) : List (Text × Bool) :=
  (request.settingsPath, false) ::
    match request.task with
    | .convert conversion =>
      (conversion.file, false) :: (conversion.destination?.map (·, false)).toList
    | .detect paths => paths.map (·, true)
    | .pairs | .describe => []

/-- The names that the parts of a path lead to from a folder, whether they are there or not. -/
def plainNames (folder parts : List Text) : List Text :=
  parts.foldl
    (fun names part =>
      if Path.isHere part then names
      else if part = ['.', '.'] then names.dropLast
      else names ++ [part])
    folder

def diskPath (names : List Text) : String := String.ofList ('/' :: Text.join ['/'] names)

/-- What stands on the disk under some names. What a folder holds is read if it matters, but not that
of folders which a search passes over. -/
partial def readNode (names : List Text) (isDeep : Bool) : IO (Option FileNode) := do
  let place := (← IO.currentDir) / diskPath names
  if ← place.isDir then
    -- on the way to a path only the folder itself matters
    if !isDeep then return some .empty
    let mut entries := []
    for entry in ← place.readDir do
      let name := entry.fileName.toList
      if let some node ← readNode (names ++ [name]) (!FileNode.isSkipped name) then
        entries := entries ++ [(name, node)]
    return some (.folder entries)
  else if ← place.pathExists then
    return some (.file (.ofBytes (← IO.FS.readBinFile place).toList))
  else
    return none

/-- The tree with what stands on the disk under some names. -/
def readInto (tree : FileTree) (names : List Text) (isDeep : Bool) : IO FileTree := do
  match tree.root.get names, isDeep with
  -- what has been read as a part of another path is not read again
  | .ok _, false => return tree
  | _, _ =>
    match ← readNode names isDeep with
    | some node => return tree.put names node
    | none => return tree

/-- The tree with what a path names on the disk, and with the folders on the way to it. -/
def readPath (tree : FileTree) (path : Text) (isDeep : Bool) : IO FileTree := do
  let base := if Path.isAbsolute path then [] else tree.here
  let parts := Path.parts path
  let mut tree := tree
  for count in List.range parts.length do
    tree ← readInto tree (plainNames base (parts.take count)) false
  readInto tree (plainNames base parts) isDeep

/-- The tree of what a request touches, seen from the current folder. -/
def readTree (request : Request) : IO FileTree := do
  let here := plainNames [] (Path.parts (← IO.currentDir).toString.toList)
  let mut tree : FileTree := { root := FileNode.empty.put .empty here, here := here }
  for (path, isDeep) in request.paths do
    tree ← readPath tree path isDeep
  return tree

/-- Writes the files of a tree that differ from those of an earlier one. -/
def writeChanges (before after : FileTree) : IO Unit := do
  let known := before.root.files
  for (path, content) in after.root.files do
    if known.lookup path ≠ some content then
      let place := (← IO.currentDir) / diskPath [path]
      if let some folder := place.parent then IO.FS.createDirAll folder
      match content with
      | .text t => IO.FS.writeFile place (String.ofList t)
      | .binary bytes => IO.FS.writeBinFile place ⟨bytes.toArray⟩

def usage : Text :=
  "usage: convert FILE [--from NAME] [--to NAME] [--in-place | --output PATH]\n" ++
    "       detect PATH...\n       pairs\n" ++
    "options: --config PATH, --format table|json|plain, --verbose\n"

end Parlance

open Parlance in
/-- Runs the request that the arguments make; malformed arguments only show how the program is
called. -/
def main (args : List String) : IO UInt32 := do
  match Request.ofArguments (args.map String.toList) with
  | none =>
    IO.eprint (String.ofList usage)
    return 2
  | some request =>
    let before ← readTree request
    let (after, report) := request.run before
    writeChanges before after
    IO.eprint (String.ofList report.messages)
    IO.print (String.ofList report.output)
    if request.task = .describe then IO.print (String.ofList usage)
    return UInt32.ofNat report.exitCode
