import Parlance.Detection
import Parlance.FileTree.Basic

/-!
Telling the vocabularies of the sources in a tree.
-/

namespace Parlance

/-- A source with its vocabulary, if it gives one away. -/
structure Detected where
  path : Text
  framework : Option Framework
deriving DecidableEq, Repr

namespace FileNode

def sourceExtensions : List Text := ["js", "jsx", "ts", "tsx", "mjs", "cjs"]

def isSourceName (name : Text) : Bool :=
  (Path.extension? name).any fun ending => sourceExtensions.contains ending

/-- Whether a folder is passed over: installed packages and hidden folders are. -/
def isSkipped (name : Text) : Bool :=
  name = "node_modules".toList || Text.firstIs (· = '.') name

def nameLe : Text → Text → Bool
  | [], _ => true
  | _ :: _, [] => false
  | a :: s, b :: t => a < b || (a = b && nameLe s t)

def detectContent (path : Text) : Content → List Detected
  | .text t => [⟨path, detectFramework t⟩]
  | .binary _ => []

mutual

/-- The sources in some entries of a folder, each entry's under its name. -/
def scanEntries (path : Text) : List (Text × FileNode) → List (Text × List Detected)
  | [] => []
  | (name, node) :: rest => (name, node.scanEntry (Path.join path name) name) :: scanEntries path rest

/-- The sources in an entry of a folder: the file itself if it has the name of a source, or those in
the folder unless it is passed over. Entries are taken by name. -/
def scanEntry (path name : Text) : FileNode → List Detected
  | .file content => if isSourceName name then detectContent path content else []
  | .folder entries =>
    if isSkipped name then []
    else
      ((scanEntries path entries).mergeSort fun a b => nameLe a.1 b.1).flatMap Prod.snd

end

/-- The sources under a path: the file itself whatever its name, or those in the folder. -/
def scanRoot (path : Text) : FileNode → List Detected
  | .file content => detectContent path content
  | .folder entries =>
    ((scanEntries path entries).mergeSort fun a b => nameLe a.1 b.1).flatMap Prod.snd

end FileNode

/-- The sources under some paths, in the order of the paths; a path that is not there is the
error. -/
def FileTree.scan (t : FileTree) : List Text → Except Text (List Detected)
  | [] => .ok []
  | path :: rest =>
    match t.find path with
    | .error _ => .error path
    | .ok node => (t.scan rest).map fun found => node.scanRoot path ++ found

end Parlance
