import Parlance.Document.Basic
import Parlance.Source.Block
import Parlance.Step.Statement

/-!
Reading the tree of a source. A cursor goes through a scope from left to right. Where code declares
a suite, a test or a hook, its block is bounded and the cursor goes on after the call; a call that
only looks like a declaration is passed over whole; all else is kept as statements.
-/

namespace Parlance

open Source (Block Kind)

/-- A place in a scope: the character before it, what follows, and what each following character
belongs to. -/
structure Cursor where
  last : Option Char
  rest : Text
  kinds : List Kind

namespace Cursor

def start (t : Text) : Cursor := ⟨none, t, (Source.marks t).map Source.Mark.kind⟩

def point (c : Cursor) : Point := ⟨c.last, c.rest⟩

def isHidden (c : Cursor) : Bool := c.kinds.head?.any (· ≠ .code)

def drop (c : Cursor) (count : Nat) : Cursor :=
  ⟨(c.rest.take count).getLast?.or c.last, c.rest.drop count, c.kinds.drop count⟩

end Cursor

/-- The head of a declaration: its slot, its title and its number of characters up to and with the
brace that opens its block. -/
structure Opening where
  slot : Slot
  title : Text
  length : Nat
deriving DecidableEq, Repr

namespace Opening

/-- The head of a declaration of a slot at a place. -/
def ofSlot? (f : Framework) (p : Point) (slot : Slot) : Option Opening := do
  let pattern ← slot.pattern? f
  let hit ← pattern.hit? p
  some ⟨slot, Source.unescape (hit.title.getD []), p.rest.length - hit.stop.rest.length⟩

/-- The longest of some heads; of equals the first. -/
def longest? : List Opening → Option Opening
  | [] => none
  | o :: rest => some (rest.foldl (fun best e => if best.length < e.length then e else best) o)

def at? (f : Framework) (p : Point) : Option Opening :=
  longest? (Slot.declarations.filterMap (ofSlot? f p))

/-- The name under which a block is reported when nothing closes it. -/
def reportName (o : Opening) : Text :=
  match o.slot with
  | .hook kind => kind.name
  | _ => o.title

end Opening

/-- The number of characters of the call that begins a text. -/
def callLength? (t : Text) : Option Nat :=
  match t.dropWhile (· ≠ '(') with
  | [] => none
  | _ :: inside =>
    (Source.enclosed? inside).map fun (_, tail) =>
      match tail.dropWhile fun c => c = ' ' || c = '\t' with
      -- a semicolon on the same line belongs to the call
      | ';' :: rest => t.length - rest.length
      | _ => t.length - tail.length

namespace Document

/-- The statements of a text between declarations, without the vocabulary's own import line. -/
def ofGap (f : Framework) (gap : Text) : Document :=
  { passthrough := (Source.splitStatements gap).filter fun s => !Slot.preamble.occursIn f s }

def ofUnclosed (o : Opening) (block : Block) : Document :=
  if block.closed then {} else { unterminated := [o.reportName] }

/-- The number of characters that a cursor passes where nothing is declared. -/
def passedLength (f : Framework) (c : Cursor) : Nat :=
  if !c.isHidden && (Slot.candidate.pattern? f).any fun p => (p.hit? c.point).isSome then
    -- a call that looks like a declaration is passed as a whole, to the end if nothing closes it
    (callLength? c.rest).getD c.rest.length
  else
    1

/-- Reads a scope from a cursor. `gap` is the text since the last declaration, last character
first. -/
def readFrom (f : Framework) (gap : Text) (c : Cursor) : Document :=
  match _h : c.rest with
  | [] => ofGap f gap.reverse
  | _ :: tail =>
    match if c.isHidden then none else Opening.at? f c.point with
    | some opening =>
      let block := Block.read (tail.drop (opening.length - 1))
      -- behind the block and behind the call around it, whichever ends later
      let claimed := max 1 (max (opening.length + block.length) ((callLength? c.rest).getD 0))
      let declared : Document :=
        match opening.slot with
        -- what is open inside a suite is reported with what is open around it
        | .suite =>
          let inner := readFrom f [] (Cursor.start block.body)
          { suites := [inner.toSuite opening.title], unterminated := inner.unterminated }
        | .test => { tests := [⟨opening.title, block.body, Assertion.ofBody f block.body⟩] }
        | .hook kind => { hooks := Hooks.single kind block.body }
        | _ => {}
      ofGap f gap.reverse ++ ofUnclosed opening block ++ declared ++
        readFrom f [] (c.drop claimed)
    | none =>
      -- the cursor moves on whatever is found
      let passed := max 1 (passedLength f c)
      readFrom f ((c.rest.take passed).reverse ++ gap) (c.drop passed)
termination_by c.rest.length
decreasing_by
  all_goals
    have hlen : c.rest.length = tail.length + 1 := by rw [_h]; rfl
    simp only [Cursor.start, Cursor.drop, List.length_drop]
  · have := (Block.read_length (tail.drop (opening.length - 1))).1
    simp only [List.length_drop] at this
    omega
  · omega
  · omega

def ofSource (f : Framework) (source : Text) : Document := readFrom f [] (Cursor.start source)

end Document

end Parlance
