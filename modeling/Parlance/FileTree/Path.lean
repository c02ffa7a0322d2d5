import Parlance.Text.Basic

/-!
Paths as they are typed: names with slashes between them. A dot stands for the folder itself, two
dots for the one around it.
-/

namespace Parlance.Path

/-- The parts of a path between its slashes; `part` is the one being read, last character first. -/
def splitFrom (part : Text) : Text → List Text
  | [] => [part.reverse]
  | c :: rest => if c = '/' then part.reverse :: splitFrom [] rest else splitFrom (c :: part) rest

def parts (path : Text) : List Text := splitFrom [] path

def isHere (part : Text) : Bool := part.isEmpty || part = ['.']

def isAbsolute (path : Text) : Bool := Text.firstIs (· = '/') path

def endsWithSlash (path : Text) : Bool := path.getLast? = some '/'

/-- Some parts without those at the end that name nothing of their own. -/
def dropTrailing : List Text → List Text
  | [] => []
  -- a dot that stands first does name something
  | first :: rest => first :: (rest.reverse.dropWhile isHere).reverse

/-- The path of the folder around what a path names, as far as the path tells. -/
def parent? (path : Text) : Option Text :=
  let around := Text.join ['/'] (dropTrailing (dropTrailing (parts path)).dropLast)
  -- nothing is around the outermost folder, but it is around the first name under it
  if !around.isEmpty then some around
  else if isAbsolute path && path.any (· ≠ '/') then some ['/']
  else none

def join (folder name : Text) : Text :=
  if endsWithSlash folder then folder ++ name else folder ++ '/' :: name

/-- What follows the last dot of a file name, unless that dot is its first character. -/
def extension? (name : Text) : Option Text :=
  let ending := name.reverse.takeWhile (· ≠ '.')
  if ending.length + 1 < name.length then some ending.reverse else none

end Parlance.Path
