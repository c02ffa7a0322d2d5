/-!
Texts are lists of characters. Positions in a text are UTF-8 byte offsets, so a position is the
`size` of what stands before it, and `cut?` refuses an offset that falls inside a character.
-/

namespace Parlance

abbrev Text := List Char

instance : Coe String Text := ⟨String.toList⟩

namespace Text

/-! ## Byte offsets -/

/-- The number of bytes a text takes in UTF-8. -/
def size : Text → Nat
  | [] => 0
  | c :: rest => c.utf8Size + size rest

@[simp] theorem size_nil : size [] = 0 := rfl

@[simp] theorem size_cons (c : Char) (t : Text) : size (c :: t) = c.utf8Size + size t := rfl

@[simp] theorem size_append (s t : Text) : size (s ++ t) = size s + size t := by
  induction s with
  | nil => simp
  | cons c s ih => simp only [List.cons_append, size_cons, ih]; omega

/-- Cuts a text in two at a byte offset; an offset past the end or inside a character has no cut. -/
def cut? : Nat → Text → Option (Text × Text)
  | 0, t => some ([], t)
  | _ + 1, [] => none
  | n + 1, c :: rest =>
    -- an offset that ends inside `c` is no character boundary
    if c.utf8Size ≤ n + 1 then
      (cut? (n + 1 - c.utf8Size) rest).map fun (before, after) => (c :: before, after)
    else
      none

/-- What is left of a text from the first character boundary at or after a byte offset. -/
def fromOffset : Nat → Text → Text
  | 0, t => t
  | _ + 1, [] => []
  | n + 1, c :: rest => fromOffset (n + 1 - c.utf8Size) rest

theorem cut?_size (s t : Text) : cut? (size s) (s ++ t) = some (s, t) := by
  induction s with
  | nil => simp [cut?]
  | cons c s ih =>
    -- no character is empty, so the offset is a successor and the last equation applies
    obtain ⟨k, hk⟩ : ∃ k, c.utf8Size + size s = k + 1 :=
      ⟨c.utf8Size + size s - 1, by have := c.utf8Size_pos; omega⟩
    simp only [size_cons, List.cons_append, hk, cut?]
    rw [if_pos (by omega), ← hk, Nat.add_sub_cancel_left, ih]
    rfl

/-! ## Parts of a text -/

def startsWith (t lead : Text) : Bool := lead.isPrefixOf t

/-- Whether the first character of the text satisfies `p`; an empty text has none. -/
def firstIs (p : Char → Bool) (t : Text) : Bool := t.head?.any p

def after? : (lead t : Text) → Option Text
  | [], t => some t
  | _ :: _, [] => none
  | a :: lead, c :: t => if a = c then after? lead t else none

def holds (part : Text) : Text → Bool
  | [] => part.isEmpty
  | c :: rest => startsWith (c :: rest) part || holds part rest

/-- What stands before and after the last place where the given part occurs. -/
def splitLast? (part : Text) : Text → Option (Text × Text)
  | [] => (after? part []).map fun after => ([], after)
  | c :: rest =>
    match splitLast? part rest with
    | some (before, after) => some (c :: before, after)
    | none => (after? part (c :: rest)).map fun after => ([], after)

/-- The texts one after another, with `sep` between neighbours. -/
def join (sep : Text) (parts : List Text) : Text := List.intercalate sep parts

/-- The text with every ASCII capital made small. -/
def lower (t : Text) : Text := t.map Char.toLower

def ofNat (n : Nat) : Text := Nat.toDigits 10 n

end Text

end Parlance
