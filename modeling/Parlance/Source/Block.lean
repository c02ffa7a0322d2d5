import Parlance.Source.Lexical

/-!
Matching brackets: the body of a block up to the brace that closes it, and the closer that belongs
to an opener. Brackets in literals and comments do not count.
-/

namespace Parlance.Source

/-! ## Blocks -/

/-- The marked characters before the brace that closes a block, and those after it. `depth` is the
number of braces open inside the block. -/
def splitBlock (depth : Nat) : List Mark → Option (List Mark × List Mark)
  | [] => none
  | m :: rest =>
    if m.isCode '\x7d' then
      match depth with
      | 0 => some ([], rest)
      | depth + 1 => (splitBlock depth rest).map fun (body, tail) => (m :: body, tail)
    else
      (splitBlock (if m.isCode '\x7b' then depth + 1 else depth) rest).map
        fun (body, tail) => (m :: body, tail)

theorem splitBlock_eq_append {depth : Nat} {ms body tail : List Mark}
    (h : splitBlock depth ms = some (body, tail)) : ∃ m, ms = body ++ m :: tail := by
  fun_induction splitBlock depth ms generalizing body tail with
  | case1 => simp at h
  | case2 m rest => exact ⟨m, by simp_all⟩
  | case3 m rest hm depth ih =>
    obtain ⟨⟨b, t⟩, hb, he⟩ := Option.map_eq_some_iff.1 h
    obtain ⟨rfl, rfl⟩ := Prod.mk.inj he
    obtain ⟨c, rfl⟩ := ih hb
    exact ⟨c, rfl⟩
  | case4 depth m rest hm ih =>
    obtain ⟨⟨b, t⟩, hb, he⟩ := Option.map_eq_some_iff.1 h
    obtain ⟨rfl, rfl⟩ := Prod.mk.inj he
    obtain ⟨c, rfl⟩ := ih hb
    exact ⟨c, rfl⟩

/-- A block that has been bounded: its body, whether a brace closed it, and what follows that
brace. A block that nothing closes runs to the end of the text. -/
structure Block where
  body : Text
  closed : Bool
  rest : Text
deriving DecidableEq, Repr

/-- Bounds the block whose opening brace stands right before the text. -/
def Block.read (t : Text) : Block :=
  match splitBlock 0 (marks t) with
  | some (body, rest) => ⟨unmark body, true, unmark rest⟩
  -- a block that nothing closes runs to the end of the text
  | none => ⟨t, false, []⟩

theorem Block.read_length (t : Text) :
    (Block.read t).body.length ≤ t.length ∧ (Block.read t).rest.length ≤ t.length := by
  unfold Block.read
  split
  · rename_i body rest h
    obtain ⟨m, hm⟩ := splitBlock_eq_append h
    have hl := length_marks t
    rw [hm] at hl
    simp only [List.length_append, List.length_cons] at hl
    simp only [unmark, List.length_map]
    omega
  · simp

def Block.length (b : Block) : Nat := b.body.length + if b.closed then 1 else 0

/-- A block bounded at a byte offset: its body, the offset just past it and whether it is closed. -/
structure BlockAt where
  body : Text
  stop : Nat
  closed : Bool
deriving DecidableEq, Repr

/-- Bounds the block whose opening brace ends at byte `start`. -/
def blockAt (t : Text) (start : Nat) : BlockAt :=
  -- an offset beyond the text bounds the empty block at its end
  let start := min start (Text.size t)
  let block := Block.read (Text.fromOffset start t)
  ⟨block.body, if block.closed then start + Text.size block.body + 1 else Text.size t, block.closed⟩

/-! ## Closers -/

/-- The marked characters before the closer that brings the bracket depth down to zero, and those
after it; brackets of all kinds count together. There is none if the depth would fall below zero. -/
def splitClose (depth : Nat) : List Mark → Option (List Mark × List Mark)
  | [] => none
  | m :: rest =>
    if m.closes then
      match depth with
      -- the depth would fall below zero
      | 0 => none
      | 1 => some ([], rest)
      | depth + 2 => (splitClose (depth + 1) rest).map fun (inner, tail) => (m :: inner, tail)
    else
      (splitClose (if m.opens then depth + 1 else depth) rest).map
        fun (inner, tail) => (m :: inner, tail)

theorem splitClose_eq_append {depth : Nat} {ms inner tail : List Mark}
    (h : splitClose depth ms = some (inner, tail)) : ∃ m, ms = inner ++ m :: tail := by
  fun_induction splitClose depth ms generalizing inner tail with
  | case1 => simp at h
  | case2 => simp at h
  | case3 m rest => exact ⟨m, by simp_all⟩
  | case4 m rest hm depth ih =>
    obtain ⟨⟨b, t⟩, hb, he⟩ := Option.map_eq_some_iff.1 h
    obtain ⟨rfl, rfl⟩ := Prod.mk.inj he
    obtain ⟨c, rfl⟩ := ih hb
    exact ⟨c, rfl⟩
  | case5 depth m rest hm ih =>
    obtain ⟨⟨b, t⟩, hb, he⟩ := Option.map_eq_some_iff.1 h
    obtain ⟨rfl, rfl⟩ := Prod.mk.inj he
    obtain ⟨c, rfl⟩ := ih hb
    exact ⟨c, rfl⟩

/-- What stands between the opener right before the text and its closer, and what follows the
closer. -/
def enclosed? (t : Text) : Option (Text × Text) :=
  (splitClose 1 (marks t)).map fun (inner, tail) => (unmark inner, unmark tail)

theorem enclosed?_length {t inner tail : Text} (h : enclosed? t = some (inner, tail)) :
    inner.length + tail.length + 1 = t.length := by
  obtain ⟨⟨b, r⟩, hb, he⟩ := Option.map_eq_some_iff.1 h
  obtain ⟨rfl, rfl⟩ := Prod.mk.inj he
  obtain ⟨m, hm⟩ := splitClose_eq_append hb
  have hl := length_marks t
  rw [hm] at hl
  simp only [List.length_append, List.length_cons] at hl
  simp only [unmark, List.length_map]
  omega

/-- The byte offset of the closer that belongs to the opener at byte `start`. -/
def closeAt? (t : Text) (start : Nat) : Option Nat :=
  let rest := Text.fromOffset start t
  (splitClose 0 (marks rest)).map fun (inner, _) =>
    Text.size t - Text.size rest + Text.size (unmark inner)

end Parlance.Source
