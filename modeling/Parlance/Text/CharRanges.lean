import Parlance.Text.Basic

/-!
Classes of characters, given by the ranges of their code points.
-/

namespace Parlance

/-- A class of characters: ranges of code points with both ends, in ascending order. -/
abbrev CharRanges := List (Nat × Nat)

namespace CharRanges

def has (ranges : CharRanges) (c : Char) : Bool :=
  ranges.any fun (low, high) => low ≤ c.toNat && c.toNat ≤ high

theorem has_iff {ranges : CharRanges} {c : Char} :
    ranges.has c = true ↔ ∃ r ∈ ranges, r.1 ≤ c.toNat ∧ c.toNat ≤ r.2 := by
  simp [has]

end CharRanges

end Parlance
