import Parlance.Declaration.Slot
import Parlance.Source.Literal

/-!
Declarations: places in a text where a slot of a vocabulary was found.
-/

namespace Parlance

/-- A place where a slot was found. For what opens a block, `stop` lies just past the brace. -/
structure Declaration where
  slot : Slot
  start : Nat
  stop : Nat
  /-- The title without its quotes and escapes. -/
  title : Option Text
  name : Option Text
  opensBlock : Bool
deriving DecidableEq, Repr

namespace Declaration

def ofFound (slot : Slot) (found : Found) : Declaration :=
  ⟨slot, found.start, found.stop, found.title.map Source.unescape, found.name,
    -- only patterns of blocks end with a brace
    found.text.getLast? = some '\x7b'⟩

/-- The first declaration of a slot that starts at or after a byte offset. -/
def findAt? (framework : Framework) (slot : Slot) (t : Text) (offset : Nat) :
    Option Declaration :=
  (slot.pattern? framework).bind fun pattern => (pattern.findAt? t offset).map (ofFound slot)

def all (framework : Framework) (slot : Slot) (t : Text) : List Declaration :=
  (slot.pattern? framework).elim [] fun pattern => (pattern.allMatches t).map (ofFound slot)

/-- Whether a declaration goes before another: it starts earlier, or at the same place and is
longer. -/
def precedes (d e : Declaration) : Bool :=
  d.start < e.start || (d.start = e.start && e.stop < d.stop)

/-- The declaration that no other one precedes; of equals the first. -/
def first? : List Declaration → Option Declaration
  | [] => none
  | d :: rest => some (rest.foldl (fun best e => if e.precedes best then e else best) d)

/-- The first suite, test or hook that starts at or after a byte offset; of two that start at the
same place the longer one. -/
def next? (framework : Framework) (t : Text) (offset : Nat) : Option Declaration :=
  first? (Slot.declarations.filterMap fun slot => findAt? framework slot t offset)

end Declaration

end Parlance
