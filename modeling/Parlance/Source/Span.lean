import Parlance.Source.Lexical

/-!
Byte ranges of a text, and those its literals and comments take up.
-/

namespace Parlance.Source

/-- The bytes from `start` up to, and without, `stop`. -/
structure Span where
  start : Nat
  stop : Nat
deriving DecidableEq, Repr

def Span.contains (s : Span) (pos : Nat) : Bool := s.start ≤ pos && pos < s.stop

/-- The spans of the hidden characters of a marked text that begins at byte `at`; `pending` is the
start of the span being read. -/
def hiddenFrom (offset : Nat) (pending : Option Nat) : List Mark → List Span
  | [] => (pending.map fun start => ⟨start, offset⟩).toList
  | m :: rest =>
    let next := offset + m.char.utf8Size
    if m.isHidden then
      hiddenFrom next (some (pending.getD offset)) rest
    else
      -- a character of code ends the span before it
      (pending.map fun start => ⟨start, offset⟩).toList ++ hiddenFrom next none rest

/-- The spans of a text that lie in literals or comments, in order; spans that touch are one. -/
def hiddenSpans (t : Text) : List Span := hiddenFrom 0 none (marks t)

/-- Whether a position lies in one of some ordered spans: the first span that ends after it decides. -/
def inSpans (spans : List Span) (pos : Nat) : Bool :=
  (spans.find? fun s => pos < s.stop).any fun s => s.start ≤ pos

end Parlance.Source
