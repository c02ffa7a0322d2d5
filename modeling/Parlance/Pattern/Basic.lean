import Parlance.Text.Blank
import Parlance.Text.Word

/-!
Patterns over texts and their matches at a point. A pattern has several matches at one point; they
are listed in order of preference, and the first one counts.
-/

namespace Parlance

/-- A place in a text: the character before it, if there is one, and what follows. -/
structure Point where
  last : Option Char
  rest : Text
deriving DecidableEq, Repr

def Point.isWordEdge (p : Point) : Bool := p.last.any isWord != p.rest.head?.any isWord

def Point.upTo (p later : Point) : Text := p.rest.take (p.rest.length - later.rest.length)

/-- The parts of a match that are kept. -/
inductive Capture where
  | title
  | name
deriving DecidableEq, Repr

/-- Where a match ends, and what it kept. -/
structure Hit where
  stop : Point
  title : Option Text
  name : Option Text
deriving DecidableEq, Repr

def Hit.empty (p : Point) : Hit := ⟨p, none, none⟩

def Hit.keep (h : Hit) (capture : Capture) (part : Text) : Hit :=
  match capture with
  | .title => { h with title := some part }
  | .name => { h with name := some part }

/-- A later hit with what an earlier one kept, unless the later one kept it anew. -/
def Hit.after (later earlier : Hit) : Hit :=
  ⟨later.stop, later.title.or earlier.title, later.name.or earlier.name⟩

/-- What a pattern describes. -/
inductive Pattern where
  | char (accepts : Char → Bool)
  /-- Nothing, at the beginning or the end of a word. -/
  | wordEdge
  /-- Nothing, at the start of the whole text. -/
  | textStart
  | empty
  | seq (first second : Pattern)
  /-- One of two patterns, the first one preferred. -/
  | alt (preferred other : Pattern)
  /-- Any number of repetitions, as many as possible preferred. -/
  | many (p : Pattern)
  /-- Any number of repetitions, as few as possible preferred. -/
  | few (p : Pattern)
  /-- A part that is kept. -/
  | keep (capture : Capture) (p : Pattern)

namespace Pattern

/-- One repetition after another from a place; `steps` bounds their number. -/
def repeated (once : Point → List Hit) (greedy : Bool) : (steps : Nat) → Point → List Hit
  | 0, p => [.empty p]
  | steps + 1, p =>
    -- a repetition that takes nothing is left out, so that each one brings the end nearer
    let more := ((once p).filter fun h => h.stop.rest.length < p.rest.length).flatMap fun h =>
      (repeated once greedy steps h.stop).map (·.after h)
    if greedy then more ++ [.empty p] else .empty p :: more

/-- The matches of a pattern at a place, the preferred ones first. -/
def hits : Pattern → Point → List Hit
  | .char accepts, p =>
    match p.rest with
    | [] => []
    | c :: rest => if accepts c then [.empty ⟨some c, rest⟩] else []
  | .wordEdge, p => if p.isWordEdge then [.empty p] else []
  | .textStart, p => if p.last.isNone then [.empty p] else []
  | .empty, p => [.empty p]
  | .seq first second, p =>
    (first.hits p).flatMap fun h => (second.hits h.stop).map (·.after h)
  | .alt preferred other, p => preferred.hits p ++ other.hits p
  -- a repetition takes at least one character, so what is left bounds their number
  | .many q, p => repeated q.hits true p.rest.length p
  | .few q, p => repeated q.hits false p.rest.length p
  | .keep capture q, p => (q.hits p).map fun h => h.keep capture (p.upTo h.stop)

def hit? (pattern : Pattern) (p : Point) : Option Hit := (pattern.hits p).head?

/-! ## Common patterns -/

instance : Append Pattern := ⟨seq⟩

instance : OrElse Pattern := ⟨fun p q => alt p (q ())⟩

def one (c : Char) : Pattern := char (· = c)

def oneOf (cs : Text) : Pattern := char cs.contains

def noneOf (cs : Text) : Pattern := char fun c => !cs.contains c

def word (t : Text) : Pattern := t.foldr (fun c p => seq (one c) p) empty

/-- One of the given patterns, the earlier ones preferred. -/
def anyOf : List Pattern → Pattern
  | [] => char fun _ => false
  | [p] => p
  | p :: rest => alt p (anyOf rest)

/-- A pattern or nothing, the pattern preferred. -/
def optional (p : Pattern) : Pattern := alt p empty

def many1 (p : Pattern) : Pattern := seq p (many p)

def blanks : Pattern := many (char isBlank)

def words (ts : List Text) : Pattern := anyOf (ts.map word)

end Pattern

end Parlance
