import Parlance.Proofs.Balance
import Parlance.Proofs.Offsets

/-!
Where a block ends. Its body is the one text before a brace that, read on its own, leaves nothing
open and balances in its braces; if there is no such text, the block runs to the end.
-/

namespace Parlance.Source

/-- A text that can be the body of a block: read on its own it leaves no literal and no comment open,
and no front of it closes more braces than it opens. -/
structure IsBlockBody (body : Text) : Prop where
  mode : finalMode body = .code
  balanced : braces.Balanced (marks body)

/-- A text that begins with the body of a block and the brace that ends it. -/
def ClosesBlock (t body tail : Text) : Prop := t = body ++ '\x7d' :: tail ∧ IsBlockBody body

/-! ## 1. The body of a block -/

theorem IsBlockBody.marks_append {body : Text} (h : IsBlockBody body) (tail : Text) :
    marks (body ++ '\x7d' :: tail) = marks body ++ codeMark '\x7d' :: marks tail :=
  marks_append_cons h.mode (by decide) (by decide) tail

theorem ClosesBlock.splitBlock {t body tail : Text} (h : ClosesBlock t body tail) :
    Source.splitBlock 0 (marks t) = some (marks body, marks tail) := by
  obtain ⟨rfl, hbody⟩ := h
  exact splitBlock_eq_some_iff.2 ⟨codeMark '\x7d', rfl, hbody.marks_append tail, hbody.balanced⟩

/-- What ends a block in a text is read as a brace of code, so the text before it is read the same on
its own. -/
theorem closesBlock_of_splitBlock {t : Text} {body tail : List Mark}
    (h : splitBlock 0 (marks t) = some (body, tail)) : ClosesBlock t (unmark body) (unmark tail) := by
  obtain ⟨m, hm, hmarks, hbalanced⟩ := splitBlock_eq_some_iff.1 h
  simp only [Mark.isCode, Bool.and_eq_true, decide_eq_true_eq] at hm
  obtain ⟨hkind, hchar⟩ := hm
  -- a brace of code leaves nothing open before it
  have hbody : marks (unmark body) = body := marks_before_code hmarks hkind
  refine ⟨?_, ?_, ?_⟩
  · rw [← unmark_marks t, hmarks, unmark_append, unmark_cons, hchar]
  · exact finalMode_before_code hmarks hkind (by rw [hchar]; decide)
  · rw [hbody]
    exact hbalanced

theorem ClosesBlock.unique {t body tail body' tail' : Text} (h : ClosesBlock t body tail)
    (h' : ClosesBlock t body' tail') : body' = body ∧ tail' = tail := by
  have hsplit := Option.some.inj (h'.splitBlock.symm.trans h.splitBlock)
  obtain ⟨hbody, htail⟩ := Prod.mk.inj hsplit
  constructor
  · rw [← unmark_marks body', hbody, unmark_marks]
  · rw [← unmark_marks tail', htail, unmark_marks]

/-! ## 2. Blocks of a text -/

theorem Block.read_of_closes {t body tail : Text} (h : ClosesBlock t body tail) :
    Block.read t = ⟨body, true, tail⟩ := by
  unfold Block.read
  rw [h.splitBlock]
  simp only [unmark_marks]

theorem Block.read_of_not_closes {t : Text} (h : ¬∃ body tail, ClosesBlock t body tail) :
    Block.read t = ⟨t, false, []⟩ := by
  unfold Block.read
  cases hs : splitBlock 0 (marks t) with
  | none => rfl
  | some p => exact absurd ⟨_, _, closesBlock_of_splitBlock hs⟩ h

/-- A block is closed behind its body, or all that is left. -/
theorem Block.read_cases (t : Text) :
    (∃ body tail, t = body ++ '\x7d' :: tail ∧ Block.read t = ⟨body, true, tail⟩) ∨
      Block.read t = ⟨t, false, []⟩ := by
  by_cases h : ∃ body tail, ClosesBlock t body tail
  · obtain ⟨body, tail, hbody⟩ := h
    exact .inl ⟨body, tail, hbody.1, Block.read_of_closes hbody⟩
  · exact .inr (Block.read_of_not_closes h)

theorem Block.take_length (t : Text) :
    t.take (Block.read t).length =
      (Block.read t).body ++ if (Block.read t).closed then ['\x7d'] else [] := by
  rcases Block.read_cases t with ⟨body, tail, ht, hread⟩ | hread
  · rw [hread, ht]
    simp [Block.length, List.take_append, List.take_of_length_le]
  · rw [hread]
    simp [Block.length]

theorem Block.length_le (t : Text) : (Block.read t).length ≤ t.length := by
  rcases Block.read_cases t with ⟨body, tail, ht, hread⟩ | hread
  · rw [hread, ht]
    simp [Block.length]
  · rw [hread]
    simp [Block.length]

theorem Block.body_of_open {t : Text} (h : (Block.read t).closed = false) :
    (Block.read t).body = t := by
  rcases Block.read_cases t with ⟨body, tail, -, hread⟩ | hread
  · rw [hread] at h
    exact absurd h.symm Bool.false_ne_true
  · rw [hread]

/-! ## 3. Blocks at an offset -/

/-- A block that begins behind `before` is the block of what follows. -/
theorem blockAt_append (before after : Text) :
    blockAt (before ++ after) (Text.size before) =
      ⟨(Block.read after).body,
        Text.size before + Text.size (after.take (Block.read after).length),
        (Block.read after).closed⟩ := by
  have hmin : min (Text.size before) (Text.size (before ++ after)) = Text.size before :=
    Nat.min_eq_left (Text.isBoundary_append before after).le
  simp only [blockAt, hmin, Text.fromOffset_append, Block.take_length]
  cases hclosed : (Block.read after).closed with
  | true =>
    have hbrace : Text.size ['\x7d'] = 1 := rfl
    simp only [if_true, Text.size_append, hbrace, Nat.add_assoc]
  | false =>
    rw [Block.body_of_open hclosed]
    simp

variable {t : Text} {start : Nat}

theorem blockAt_of_closes (h : Text.IsBoundary t start) {body tail : Text}
    (hbody : ClosesBlock (Text.fromOffset start t) body tail) :
    blockAt t start = ⟨body, start + Text.size body + 1, true⟩ := by
  simp only [blockAt, Nat.min_eq_left h.le, Block.read_of_closes hbody, if_true]

theorem blockAt_of_not_closes (h : Text.IsBoundary t start)
    (hbody : ¬∃ body tail, ClosesBlock (Text.fromOffset start t) body tail) :
    blockAt t start = ⟨Text.fromOffset start t, Text.size t, false⟩ := by
  simp only [blockAt, Nat.min_eq_left h.le, Block.read_of_not_closes hbody, Bool.false_eq_true,
    if_false]

/-- A block that begins at an offset of a text is closed if and only if the rest of the text begins
with a body and a brace. The body is then the only one there is, and the block ends behind its
brace; a block without a body takes all the rest. -/
theorem blockAt_bounds (h : Text.IsBoundary t start) :
    ((blockAt t start).closed = true ↔
      ∃ body tail, ClosesBlock (Text.fromOffset start t) body tail) ∧
    (∀ body tail, ClosesBlock (Text.fromOffset start t) body tail →
      blockAt t start = ⟨body, start + Text.size body + 1, true⟩ ∧
      ∀ body' tail', ClosesBlock (Text.fromOffset start t) body' tail' →
        body' = body ∧ tail' = tail) ∧
    ((¬∃ body tail, ClosesBlock (Text.fromOffset start t) body tail) →
      blockAt t start = ⟨Text.fromOffset start t, Text.size t, false⟩) := by
  refine ⟨⟨fun hclosed => ?_, ?_⟩, fun body tail hbody => ?_, blockAt_of_not_closes h⟩
  · apply Classical.byContradiction
    intro hnone
    rw [blockAt_of_not_closes h hnone] at hclosed
    exact Bool.false_ne_true hclosed
  · rintro ⟨body, tail, hbody⟩
    rw [blockAt_of_closes h hbody]
  · exact ⟨blockAt_of_closes h hbody, fun body' tail' => hbody.unique⟩

/-- A block behind a character of two bytes whose body hides braces in literals with escapes, in
comments and in an inner block; another brace follows the one that ends it. -/
def hiddenBraces : Text := "é\x7b a('\\'\x7d', `\x7d`) // \x7d\n /*\x7d*/ b(\x7b \x7d) \x7d \x7d".toList

theorem blockAt_hiddenBraces :
    Text.IsBoundary hiddenBraces 3 ∧
      ClosesBlock (Text.fromOffset 3 hiddenBraces)
        " a('\\'\x7d', `\x7d`) // \x7d\n /*\x7d*/ b(\x7b \x7d) ".toList " \x7d".toList ∧
      blockAt hiddenBraces 3 =
        ⟨" a('\\'\x7d', `\x7d`) // \x7d\n /*\x7d*/ b(\x7b \x7d) ".toList, 38, true⟩ := by
  have hstart : Text.IsBoundary hiddenBraces 3 := by decide +kernel
  have hbody : ClosesBlock (Text.fromOffset 3 hiddenBraces)
      " a('\\'\x7d', `\x7d`) // \x7d\n /*\x7d*/ b(\x7b \x7d) ".toList " \x7d".toList :=
    ⟨by decide +kernel, by decide +kernel, by decide +kernel⟩
  exact ⟨hstart, hbody, ((blockAt_bounds hstart).2.1 _ _ hbody).1⟩

end Parlance.Source
