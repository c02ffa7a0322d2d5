import Parlance.Proofs.BlockBounds
import Parlance.Proofs.Nesting
import Parlance.Proofs.StatementSpans

/-!
The end of a block whose brackets are properly nested. The search that counts the braces behind the
brace that opens the block, and the one that counts brackets of all kinds from that brace on, stop at
the same brace.
-/

namespace Parlance.Source

/-! ## 1. Both searches from one brace -/

section Brace

variable {t : Text} {before inner rest : List Mark}

theorem text_of_marks {back : List Mark} (h : marks t = before ++ back) :
    t = unmark before ++ unmark back := by
  rw [← unmark_append, ← h, unmark_marks]

/-- The search for a closer begins at the brace itself. -/
theorem closeAt?_nested
    (h : marks t = before ++ codeMark '\x7b' :: (inner ++ codeMark '\x7d' :: rest))
    (hinner : Nested inner) :
    closeAt? t (Text.size (unmark before)) =
      some (Text.size (unmark before) + 1 + Text.size (unmark inner)) := by
  -- the brace is code, so the text from there on is read alone as it is in the whole
  have hread : marks (unmark (codeMark '\x7b' :: (inner ++ codeMark '\x7d' :: rest))) =
      codeMark '\x7b' :: (inner ++ codeMark '\x7d' :: rest) := by
    rw [marks, read_of_code h rfl rfl]
  have hsplit : splitClose 0 (codeMark '\x7b' :: (inner ++ codeMark '\x7d' :: rest)) =
      some (codeMark '\x7b' :: inner, rest) := by
    rw [splitClose_opener rfl, splitClose_closer hinner rfl]
    rfl
  have hbrace : Text.size (unmark (codeMark '\x7b' :: inner)) = 1 + Text.size (unmark inner) := rfl
  rw [text_of_marks h]
  simp only [closeAt?, Text.fromOffset_append, hread, hsplit, Option.map_some, hbrace,
    Text.size_append]
  congr 1
  omega

theorem text_of_braces
    (h : marks t = before ++ codeMark '\x7b' :: (inner ++ codeMark '\x7d' :: rest)) :
    t = (unmark before ++ ['\x7b']) ++ (unmark inner ++ '\x7d' :: unmark rest) := by
  have htext := text_of_marks h
  rw [unmark_cons, unmark_append, unmark_cons] at htext
  rw [List.append_assoc]
  exact htext

theorem size_brace (before : Text) : Text.size (before ++ ['\x7b']) = Text.size before + 1 :=
  Text.size_append _ _

/-- The search for the end of a block begins behind the brace. -/
theorem blockAt_nested
    (h : marks t = before ++ codeMark '\x7b' :: (inner ++ codeMark '\x7d' :: rest))
    (hinner : Nested inner) :
    blockAt t (Text.size (unmark before) + 1) =
      ⟨unmark inner, Text.size (unmark before) + 1 + Text.size (unmark inner) + 1, true⟩ := by
  have hboundary : Text.IsBoundary t (Text.size (unmark before) + 1) := by
    rw [text_of_braces h, ← size_brace]
    exact Text.isBoundary_append _ _
  -- behind the brace the text is read like one of its own
  have hread := marks_after_code h rfl
  rw [unmark_append, unmark_cons] at hread
  have hbody : ClosesBlock (Text.fromOffset (Text.size (unmark before) + 1) t) (unmark inner)
      (unmark rest) := by
    rw [text_of_braces h, ← size_brace, Text.fromOffset_append]
    apply closesBlock_of_splitBlock
    change splitBlock 0 (marks (unmark inner ++ (codeMark '\x7d').char :: unmark rest)) = _
    rw [hread, splitBlock_closer hinner rfl]
  exact blockAt_of_closes hboundary hbody

theorem part?_between
    (h : marks t = before ++ codeMark '\x7b' :: (inner ++ codeMark '\x7d' :: rest)) :
    (Span.mk (Text.size (unmark before) + 1)
      (Text.size (unmark before) + 1 + Text.size (unmark inner))).part? t = some (unmark inner) := by
  rw [text_of_braces h, ← size_brace]
  exact Span.part?_behind _ _ _

end Brace

/-! ## 2. The braces of a block -/

def StandsAt (t : Text) (m : Mark) (offset : Nat) : Prop :=
  ∃ before after, marks t = before ++ m :: after ∧ Text.size (unmark before) = offset

/-- In a text whose brackets are properly nested every brace of code that opens a block has a closer,
which is a brace of code. The block behind the first brace is closed, its body is the part of the text
between the two, and it ends right behind the second. -/
theorem closeAt?_blockAt {t : Text} (h : Nested (marks t)) {offset : Nat}
    (ho : StandsAt t (codeMark '\x7b') offset) :
    ∃ close body, closeAt? t offset = some close ∧ StandsAt t (codeMark '\x7d') close ∧
      (Span.mk (offset + 1) close).part? t = some body ∧
      blockAt t (offset + 1) = ⟨body, close + 1, true⟩ := by
  obtain ⟨before, after, hmarks, rfl⟩ := ho
  rw [hmarks] at h
  obtain ⟨inner, c, rest, rfl, hc, hinner⟩ := h.exists_closer (o := codeMark '\x7b') rfl
  -- what closes a brace can only be a brace
  obtain rfl : c = codeMark '\x7d' := by
    obtain ⟨hkind, hchar⟩ := Mark.closesOf_iff.1 hc
    cases c
    exact congr (congrArg Mark.mk hchar) hkind
  refine ⟨_, _, closeAt?_nested hmarks hinner, ?_, part?_between hmarks,
    blockAt_nested hmarks hinner⟩
  refine ⟨before ++ codeMark '\x7b' :: inner, rest, ?_, ?_⟩
  · rw [hmarks, List.append_assoc]
    rfl
  · rw [unmark_append, Text.size_append, Nat.add_assoc]
    rfl

/-- An object in an argument list, with brackets in a literal and in a comment, and a callback in
it. -/
def nestedBraces : Text := "é(\x7b a: ['\x7d'], /* ) */ b: () => \x7b c(\x7b\x7d) \x7d \x7d) \x7b\x7d".toList

theorem closeAt?_blockAt_nestedBraces :
    Nested (marks nestedBraces) ∧ StandsAt nestedBraces (codeMark '\x7b') 3 ∧
      closeAt? nestedBraces 3 = some 42 ∧
      ∃ body, (Span.mk 4 42).part? nestedBraces = some body ∧
        blockAt nestedBraces 4 = ⟨body, 43, true⟩ := by
  have hnested : Nested (marks nestedBraces) := by decide +kernel
  have hopen : StandsAt nestedBraces (codeMark '\x7b') 3 :=
    ⟨(marks nestedBraces).take 2, (marks nestedBraces).drop 3, by decide +kernel, by decide +kernel⟩
  have hclose : closeAt? nestedBraces 3 = some 42 := by decide +kernel
  obtain ⟨close, body, hfound, -, hpart, hblock⟩ := closeAt?_blockAt hnested hopen
  obtain rfl := Option.some.inj (hfound.symm.trans hclose)
  exact ⟨hnested, hopen, hclose, body, hpart, hblock⟩

end Parlance.Source
