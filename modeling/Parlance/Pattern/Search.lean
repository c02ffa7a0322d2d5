import Parlance.Pattern.Basic

/-!
Searching a text for a pattern: the leftmost place at or after a given one where it matches.
-/

namespace Parlance

/-- A match found in a text: its byte offsets, its own text and what it kept. -/
structure Found where
  start : Nat
  stop : Nat
  text : Text
  title : Option Text
  name : Option Text
deriving DecidableEq, Repr

def Found.ofHit (offset : Nat) (p : Point) (h : Hit) : Found :=
  let text := p.upTo h.stop
  ⟨offset, offset + Text.size text, text, h.title, h.name⟩

namespace Pattern

/-- The leftmost match at or after a place; `offset` counts the bytes before the place. -/
def searchFrom (pattern : Pattern) (offset : Nat) (last : Option Char) : Text → Option Found
  | [] => (pattern.hit? ⟨last, []⟩).map (Found.ofHit offset ⟨last, []⟩)
  | c :: rest =>
    match pattern.hit? ⟨last, c :: rest⟩ with
    | some h => some (Found.ofHit offset ⟨last, c :: rest⟩ h)
    | none => pattern.searchFrom (offset + c.utf8Size) (some c) rest

/-- The leftmost match that starts at or after a byte offset; an offset beyond the text or inside a
character finds nothing. -/
def findAt? (pattern : Pattern) (t : Text) (offset : Nat) : Option Found :=
  (Text.cut? offset t).bind fun (before, after) =>
    pattern.searchFrom offset before.getLast? after

def occursFrom (pattern : Pattern) (last : Option Char) : Text → Bool
  | [] => (pattern.hit? ⟨last, []⟩).isSome
  | c :: rest => (pattern.hit? ⟨last, c :: rest⟩).isSome || pattern.occursFrom (some c) rest

def occursIn (pattern : Pattern) (t : Text) : Bool := pattern.occursFrom none t

end Pattern

/-- Where the search goes on after a match: at its end, or one character after an empty match. -/
def advance (t : Text) (start stop : Nat) : Nat :=
  if start < stop then stop
  else
    match Text.fromOffset start t with
    -- the empty match at the end of the text is the last one
    | [] => Text.size t + 1
    | c :: _ => start + c.utf8Size

namespace Pattern

/-- The matches of a pattern one after another from a byte offset; `steps` bounds their number. -/
def matchesFrom (pattern : Pattern) (t : Text) : (steps : Nat) → (offset : Nat) → List Found
  | 0, _ => []
  | steps + 1, offset =>
    match pattern.findAt? t offset with
    | none => []
    | some found =>
      found :: pattern.matchesFrom t steps (advance t found.start found.stop)

/-- The matches of a pattern in a text, from the left and without overlap. -/
def allMatches (pattern : Pattern) (t : Text) : List Found :=
  -- each search starts later than the one before: one match more than the text has bytes at most
  pattern.matchesFrom t (Text.size t + 2) 0

end Pattern

end Parlance
