import Parlance.Advisory
import Parlance.Step.Basic
import Parlance.Style

/-!
Drafts: written code together with the advisories raised while writing it. Drafts are put one after
another; an advisory is kept once, where it was raised first.
-/

namespace Parlance

/-- Written code and the advisories raised by it. -/
structure Draft where
  text : Text := []
  advisories : List Text := []
deriving DecidableEq, Repr

namespace Draft

protected def append (a b : Draft) : Draft :=
  ⟨a.text ++ b.text, Advisory.merge a.advisories b.advisories⟩

instance : Append Draft := ⟨Draft.append⟩

def concat (drafts : List Draft) : Draft := drafts.foldr (· ++ ·) {}

def advice (message : Text) : Draft := { advisories := [message] }

def blankLine : Draft := { text := ['\n'] }

/-- Some drafts with an empty line between neighbours. -/
def separated (drafts : List Draft) : Draft := concat (drafts.intersperse blankLine)

end Draft

/-- A conversion to be made: from which vocabulary to which, and in which style. -/
structure Route where
  source : Framework
  target : Framework
  style : Style := {}
deriving DecidableEq, Repr

namespace Route

def line (r : Route) (level : Nat) (code : Text) : Draft :=
  { text := r.style.indentation level ++ code ++ ['\n'] }

/-- The arguments of an argument list, each literal in the quotes of the style. -/
def arguments (r : Route) (args : Text) : Text :=
  Text.join ", " ((Source.splitArguments args).map r.style.requote)

/-! ## Code of several lines -/

/-- The number of bytes of blanks at the start of a line. -/
def margin (line : Text) : Nat := Text.size line - Text.size (Text.trimStart line)

/-- A line without the blanks in its first `margin` bytes. -/
def stripMargin : (margin : Nat) → Text → Text
  | 0, line => line
  | _ + 1, [] => []
  -- a blank of several bytes may reach beyond the margin
  | n + 1, c :: rest => if isBlank c then stripMargin (n + 1 - c.utf8Size) rest else c :: rest

/-- The margin that all lines but blank ones share. -/
def sharedMargin (lines : List Text) : Nat :=
  ((lines.filter fun l => !Text.allBlank l).map margin).min?.getD 0

/-- Code of one or more lines at a nesting level. -/
def block (r : Route) (level : Nat) (code : Text) : Draft :=
  match Text.lines code with
  | [] => r.line level []
  | first :: rest =>
    -- the first line begins where the statement does, so its margin says nothing about the others
    let shared := sharedMargin rest
    r.line level (Text.trim first) ++ .concat (rest.map fun l =>
      if Text.allBlank l then .blankLine else r.line level (Text.trimEnd (stripMargin shared l)))

/-- A statement as it is, ended by a semicolon unless it is a comment or ends with a brace or a
semicolon itself. -/
def verbatim (r : Route) (level : Nat) (code : Text) : Draft :=
  let ended := isComment code || code.getLast?.any fun c => c = '\x7d' || c = ';'
  r.block level (if ended then code else code ++ [';'])

/-! ## Steps without an equivalent -/

def openStep (r : Route) (level : Nat) (title : Text) : Draft :=
  r.line level ("step(" ++ r.style.literal title ++ ", () => \x7b")

def closeBlock (r : Route) (level : Nat) : Draft := r.line level "\x7d);"

def commentStep (r : Route) (level : Nat) (title comment : Text) : Draft :=
  r.openStep level title ++ r.line (level + 1) ("// " ++ Text.oneLine comment) ++
    r.closeBlock level

/-- A comment in the place of something that the target cannot say. -/
def fallback (r : Route) (level : Nat) (call : Text) : Draft :=
  match r.target with
  | .testRail => r.commentStep level performAction call
  | .cypress | .playwright =>
    r.line level ("// " ++ performAction ++ ": " ++ Text.oneLine call)

def noEquivalent (r : Route) (name : Text) : Draft :=
  .advice ("No " ++ r.target.name ++ " equivalent for '" ++ name ++ "'; emitted as a '" ++
    performAction ++ "' comment")

def unmapped (thing name : Text) : Draft :=
  .advice ("Unmapped " ++ thing ++ " '" ++ name ++ "' was emitted as a '" ++ performAction ++
    "' comment")

end Route

end Parlance
