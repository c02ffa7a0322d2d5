import Parlance.FileTree.Path

/-!
A tree of files and folders seen from one of its folders, with the operations on it and the ways in
which they fail.
-/

namespace Parlance

/-- What a file holds: a text, or bytes that are none. -/
inductive Content where
  | text (t : Text)
  | binary (bytes : List UInt8)
deriving DecidableEq, Repr

def Content.ofBytes (bytes : List UInt8) : Content :=
  match String.fromUTF8? ⟨bytes.toArray⟩ with
  | some s => .text s.toList
  | none => .binary bytes

/-- A file, or a folder with the names of what it holds. -/
inductive FileNode where
  | file (content : Content)
  | folder (entries : List (Text × FileNode))

inductive FileError where
  | notFound
  | alreadyExists
  | notAFolder
  | isAFolder
  | notText
deriving DecidableEq, Repr

def FileError.message : FileError → Text
  | .notFound => "No such file or directory (os error 2)"
  | .alreadyExists => "File exists (os error 17)"
  | .notAFolder => "Not a directory (os error 20)"
  | .isAFolder => "Is a directory (os error 21)"
  | .notText => "stream did not contain valid UTF-8"

namespace FileNode

def empty : FileNode := .folder []

/-- What stands under some names, each inside the one before. -/
def get : FileNode → List Text → Except FileError FileNode
  | node, [] => .ok node
  | .file _, _ :: _ => .error .notAFolder
  | .folder entries, name :: names =>
    match entries.lookup name with
    | none => .error .notFound
    | some node => node.get names

/-- Entries with one name given a new node. -/
def putEntry (name : Text) (node : FileNode) : List (Text × FileNode) → List (Text × FileNode)
  -- a new name comes last
  | [] => [(name, node)]
  | (n, old) :: rest => if n = name then (n, node) :: rest else (n, old) :: putEntry name node rest

/-- The tree with something put under some names; folders missing on the way are made, and a file
on the way stays. -/
def put (root new : FileNode) : List Text → FileNode
  | [] => new
  | name :: names =>
    match root with
    -- a file on the way stays
    | .file content => .file content
    | .folder entries =>
      .folder (putEntry name (((entries.lookup name).getD empty).put new names) entries)

mutual

/-- All files of a node, with their paths after `path`. -/
def filesFrom (path : Text) : FileNode → List (Text × Content)
  | .file content => [(path, content)]
  | .folder entries => entryFiles path entries

def entryFiles (path : Text) : List (Text × FileNode) → List (Text × Content)
  | [] => []
  | (name, node) :: rest =>
    node.filesFrom (if path.isEmpty then name else Path.join path name) ++ entryFiles path rest

end

def files (root : FileNode) : List (Text × Content) := root.filesFrom []

/-- The tree of some files and empty folders; the folders around them are made. -/
def ofFiles (entries : List (Text × Option Content)) : FileNode :=
  entries.foldl
    (fun root (path, content) =>
      root.put (content.elim empty .file) ((Path.parts path).filter fun p => !Path.isHere p))
    empty

end FileNode

/-- A tree of files, and the names that lead to the folder from which paths are read. -/
structure FileTree where
  root : FileNode
  here : List Text := []

namespace FileTree

/-- The names that the parts of a path lead to from a folder. Every part but the last has to be a
folder; the last need not be there. -/
def follow (t : FileTree) (folder : List Text) : List Text → Except FileError (List Text)
  | [] => .ok folder
  | part :: rest =>
    match t.root.get folder with
    | .error e => .error e
    | .ok (.file _) => .error .notAFolder
    | .ok (.folder _) =>
      if Path.isHere part then t.follow folder rest
      else if part = ['.', '.'] then t.follow folder.dropLast rest
      else t.follow (folder ++ [part]) rest

/-- The names that a path leads to. An empty path leads nowhere. -/
def names (t : FileTree) (path : Text) : Except FileError (List Text) :=
  if path.isEmpty then .error .notFound
  else t.follow (if Path.isAbsolute path then [] else t.here) (Path.parts path)

def find (t : FileTree) (path : Text) : Except FileError FileNode := do
  t.root.get (← t.names path)

def hasPath (t : FileTree) (path : Text) : Bool :=
  match t.find path with
  | .ok _ => true
  | .error _ => false

def hasFolder (t : FileTree) (path : Text) : Bool :=
  match t.find path with
  | .ok (.folder _) => true
  | _ => false

/-- The tree with something put under some names. -/
def put (t : FileTree) (names : List Text) (node : FileNode) : FileTree :=
  { t with root := t.root.put node names }

def readText (t : FileTree) (path : Text) : Except FileError Text := do
  match ← t.find path with
  | .file (.text contents) => pure contents
  | .file (.binary _) => throw .notText
  | .folder _ => throw .isAFolder

/-- The tree with a text written to the file that a path names. The folder around it has to be there. -/
def writeText (t : FileTree) (path contents : Text) : Except FileError FileTree := do
  let names ← t.names ((path.reverse.dropWhile (· = '/')).reverse)
  -- a path written as that of a folder names no file
  if Path.endsWithSlash path then throw .isAFolder
  match t.root.get names with
  | .error .notFound | .ok (.file _) => pure (t.put names (.file (.text contents)))
  | .error e => throw e
  | .ok (.folder _) => throw .isAFolder

/-- The tree with a new folder; the one around it has to be there. -/
def makeFolder (t : FileTree) (path : Text) : Except FileError FileTree := do
  let names ← t.names path
  match t.root.get names with
  | .error .notFound => pure (t.put names .empty)
  | .error e => throw e
  | .ok _ => throw .alreadyExists

/-- The tree with a folder and those around it, as far as they are missing; `depth` bounds their
number. -/
def makeFolders : (depth : Nat) → FileTree → Text → Except FileError FileTree
  | 0, t, _ => .ok t
  | depth + 1, t, path =>
    match t.makeFolder path with
    | .ok made => .ok made
    | .error .notFound => do
      let made ← match Path.parent? path with
        | some around => makeFolders depth t around
        | none => pure t
      match made.makeFolder path with
      | .ok made => .ok made
      | .error e => if made.hasFolder path then .ok made else .error e
    | .error e => if t.hasFolder path then .ok t else .error e

/-- The tree with the folder around what a path names, if the path tells one. -/
def makeParent (t : FileTree) (path : Text) : Except FileError FileTree :=
  match Path.parent? path with
  | some around => makeFolders (around.length + 1) t around
  | none => .ok t

end FileTree

end Parlance
