import Parlance.Text.Basic

/-!
Looking up a name in a table of known things always has a result: the thing, or the name itself.
-/

namespace Parlance

/-- What a name stands for: a known thing, or nothing known, and then the name is kept. -/
inductive Lookup (α : Type) where
  | known (value : α)
  | unrecognized (name : Text)
deriving DecidableEq, Repr

/-- The known thing, if there is one. -/
def Lookup.value? {α : Type} : Lookup α → Option α
  | .known value => some value
  | .unrecognized _ => none

def Lookup.ofFound {α : Type} (name : Text) : Option α → Lookup α
  | some value => .known value
  | none => .unrecognized name

end Parlance
