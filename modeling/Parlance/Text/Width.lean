import Parlance.Text.Emoji
import Parlance.Text.Ligature

/-!
The number of columns a text takes on a terminal. Most characters take what they take by
themselves; a selector behind a character, a joined row of pictures, and letters that fuse change
that. The text is read from its end, and what has been read is remembered as far as it matters for
the character before it.
-/

namespace Parlance.Text

/-- A selector of the style of the character before it. -/
inductive Selector where
  | text
  | picture
  | fullwidth
deriving DecidableEq, Repr

def Selector.ofChar? (c : Char) : Option Selector :=
  if c = '\uFE0E' then some .text
  else if c = '\uFE0F' then some .picture
  else if c = '\uFE01' then some .fullwidth
  else none

/-- What stands after a character, as far as it changes the columns the character takes. The
`joined…` forms come after a joiner and before further pictures of the same row. -/
inductive Following where
  | plain
  | lineFeed
  | skinTone
  | flagLetter
  | flagLetters
  | picture
  | joinedPicture
  | joinedKeycap
  | joinedFlagLetter
  | joinedFlags
  | joinedFlagsAndLetter
  | joinedTag (letters digits : Nat)
  | vowelE
  | vowelAi
  | ligature (l : Ligature)
deriving DecidableEq, Repr

namespace Following

/-- What a character leaves behind when it stands by itself. -/
def ofChar (c : Char) : Following :=
  if isFlagLetter c then .flagLetter
  else if isSkinTone c then .skinTone
  else if isPicture c then .picture
  else if c.toNat = 0x16D67 then .vowelE
  else if c.toNat = 0x16D68 then .vowelAi
  else ((Ligature.ofChar? c).map ligature).getD .plain

def isJoinedRow (f : Following) : Bool := f = .joinedPicture || f = .joinedKeycap

/-- What a selector leaves of what stands after it. -/
def behind (s : Selector) (f : Following) : Following :=
  match f with
  | .ligature l => .ligature l
  | f => if s = .picture && f.isJoinedRow then f else .plain

/-- What is left when the character before a selector has no such style. -/
def withoutSelector : Following → Following
  | .ligature l => .ligature l
  | _ => .plain

/-- A tag of the name of a region. The name has at most six letters, or three digits and then at
most four letters; it stands between a black flag and the end of the tag. -/
def meetTag? (letters digits : Nat) (c : Char) : Option (Int × Following) :=
  let n := c.toNat
  if 0xE0061 ≤ n && n ≤ 0xE007A && digits = 0 && letters < 6 then
    some (0, .joinedTag (letters + 1) 0)
  else if 0xE0030 ≤ n && n ≤ 0xE0039 && letters ≤ 4 && digits < 3 then
    some (0, .joinedTag letters (digits + 1))
  else if n = 0x1F3F4 && (digits = 3 || (digits = 0 && 3 ≤ letters)) then
    some (0, .picture)
  else
    none

/-- How a character behaves before something that changes its columns. -/
def meet? (f : Following) (c : Char) : Option (Int × Following) :=
  match f with
  | .plain | .lineFeed => none
  | .ligature l => (l.meet? c).map fun (columns, larger) => (columns, (larger.map ligature).getD .plain)
  | .picture => if c = joiner then some (0, .joinedPicture) else none
  | .skinTone =>
    if takesSkinTone c then some (0, .picture)
    else if c = joiner then some (0, .joinedPicture)
    else none
  | .flagLetter => if isFlagLetter c then some (1, .flagLetters) else none
  | .flagLetters =>
    if isFlagLetter c then some (1, .flagLetters)
    else if c = joiner then some (0, .joinedPicture)
    else none
  | .joinedPicture =>
    -- the joined row ends with a keycap, a flag, a tone, a tag or a picture
    if c.toNat = 0x20E3 then some (0, .joinedKeycap)
    else if isFlagLetter c then some (1, .joinedFlagLetter)
    else if isSkinTone c then some (0, .skinTone)
    else if c.toNat = 0xE007F then some (0, .joinedTag 0 0)
    else if isPicture c then some (0, .picture)
    else none
  | .joinedKeycap => none
  | .joinedFlagLetter => if isFlagLetter c then some (-1, .joinedFlags) else none
  | .joinedFlags =>
    if isFlagLetter c then some (3, .joinedFlagsAndLetter)
    else if c = joiner then some (0, .joinedPicture)
    else none
  | .joinedFlagsAndLetter =>
    if isFlagLetter c then some (-1, .joinedFlags)
    else if c = joiner then some (0, .joinedPicture)
    else none
  | .joinedTag letters digits => meetTag? letters digits c
  | .vowelE =>
    if c.toNat = 0x16D63 || c.toNat = 0x16D69 then some (0, .plain)
    else if c.toNat = 0x16D67 then some (0, .vowelAi)
    else if c.toNat = 0x16D68 then some (1, .vowelE)
    else none
  | .vowelAi => if c.toNat = 0x16D63 then some (0, .plain) else none

end Following

/-- The part of a text already read: what it does to the character before it, and a selector that
begins it. -/
structure Tail where
  following : Following := .plain
  selector : Option Selector := none
deriving DecidableEq, Repr

/-- Whether a character is a curved quotation mark, which a selector makes wide. -/
def isCurvedQuote (c : Char) : Bool :=
  c.toNat = 0x2018 || c.toNat = 0x2019 || c.toNat = 0x201C || c.toNat = 0x201D

/-- The columns a character adds before something that no selector begins. -/
def columnsBefore (c : Char) (f : Following) : Int × Tail :=
  -- a carriage return before a line feed belongs to the same line end
  if c = '\n' then (1, ⟨.lineFeed, none⟩)
  else if c.toNat ≤ 0xA0 then (if c = '\r' && f = .lineFeed then 0 else 1, {})
  else
    match Selector.ofChar? c with
    | some s => (0, ⟨f.behind s, some s⟩)
    | none =>
      let (columns, after) := (f.meet? c).getD (charWidth c, .ofChar c)
      (columns, ⟨after, none⟩)

/-- The columns a character adds to what stands after it. -/
def addColumns (c : Char) (tail : Tail) : Int × Tail :=
  match tail.selector with
  | none => columnsBefore c tail.following
  | some .picture =>
    -- a picture is wide, unless the row it is joined to has been counted
    if isStyled c then (if tail.following.isJoinedRow then 0 else 2, ⟨.picture, none⟩)
    else columnsBefore c tail.following.withoutSelector
  | some .text => if isTextable c then (1, {}) else columnsBefore c tail.following
  | some .fullwidth => if isCurvedQuote c then (2, {}) else columnsBefore c tail.following

/-- The columns of a text, and what it does to a character before it. -/
def columns (t : Text) : Int × Tail :=
  t.foldr
    (fun c (sum, tail) =>
      let (more, tail) := addColumns c tail
      (sum + more, tail))
    (0, {})

def width (t : Text) : Nat := (columns t).1.toNat

end Parlance.Text
