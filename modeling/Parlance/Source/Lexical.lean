import Parlance.Text.Blank

/-!
The lexical reading of a source text: every character is code, part of a string or template
literal, or part of a comment. Nothing else about the language is known here.
-/

namespace Parlance.Source

inductive Kind where
  | code
  | literal
  | comment
deriving DecidableEq, Repr

/-- What the characters read so far leave open: a literal with its quote, a comment up to the end of
the line, a comment up to its closing mark, or nothing. -/
inductive Mode where
  | code
  | literal (quote : Char)
  | lineComment
  | blockComment
deriving DecidableEq, Repr

/-- A character and what it belongs to. -/
structure Mark where
  char : Char
  kind : Kind
deriving DecidableEq, Repr

def isQuote (c : Char) : Bool := c = '\x27' || c = '"' || c = '\x60'

/-- The mode after a character that neither opens nor closes a comment. -/
def Mode.afterCode (c : Char) : Mode := if isQuote c then .literal c else .code

/-- What a character read in code mode belongs to, unless it opens a comment. -/
def Kind.ofCode (c : Char) : Kind := if isQuote c then .literal else .code

/-- Reads a text from a mode. -/
def read : Mode → Text → List Mark × Mode
  | mode, [] => ([], mode)
  | .code, '/' :: '/' :: rest =>
    let (marks, final) := read .lineComment rest
    (⟨'/', .comment⟩ :: ⟨'/', .comment⟩ :: marks, final)
  | .code, '/' :: '*' :: rest =>
    let (marks, final) := read .blockComment rest
    (⟨'/', .comment⟩ :: ⟨'*', .comment⟩ :: marks, final)
  | .code, c :: rest =>
    let (marks, final) := read (.afterCode c) rest
    (⟨c, .ofCode c⟩ :: marks, final)
  -- a backslash takes the next character along, whatever it is
  | .literal quote, '\\' :: c :: rest =>
    let (marks, final) := read (.literal quote) rest
    (⟨'\\', .literal⟩ :: ⟨c, .literal⟩ :: marks, final)
  | .literal quote, c :: rest =>
    let (marks, final) := read (if c = quote then .code else .literal quote) rest
    (⟨c, .literal⟩ :: marks, final)
  | .lineComment, c :: rest =>
    -- the line feed that ends a line comment is code again
    if c = '\n' then
      let (marks, final) := read .code rest
      (⟨c, .code⟩ :: marks, final)
    else
      let (marks, final) := read .lineComment rest
      (⟨c, .comment⟩ :: marks, final)
  | .blockComment, '*' :: '/' :: rest =>
    let (marks, final) := read .code rest
    (⟨'*', .comment⟩ :: ⟨'/', .comment⟩ :: marks, final)
  | .blockComment, c :: rest =>
    let (marks, final) := read .blockComment rest
    (⟨c, .comment⟩ :: marks, final)

/-- The characters of a text, each with what it belongs to, read from code mode. -/
def marks (t : Text) : List Mark := (read .code t).1

/-- What a text, read from code mode, leaves open. -/
def finalMode (t : Text) : Mode := (read .code t).2

def unmark (ms : List Mark) : Text := ms.map Mark.char

/-- Reading keeps every character in its place. -/
theorem unmark_read (mode : Mode) (t : Text) : unmark (read mode t).1 = t := by
  fun_induction read mode t <;> simp_all [unmark]

@[simp] theorem unmark_marks (t : Text) : unmark (marks t) = t := unmark_read .code t

theorem length_marks (t : Text) : (marks t).length = t.length := by
  rw [← List.length_map (f := Mark.char)]
  exact congrArg List.length (unmark_marks t)

def Mark.isHidden (m : Mark) : Bool := m.kind ≠ .code

def Mark.isCode (m : Mark) (c : Char) : Bool := m.kind = .code && m.char = c

/-! ## Brackets -/

def isOpener (c : Char) : Bool := c = '(' || c = '[' || c = '\x7b'

def isCloser (c : Char) : Bool := c = ')' || c = ']' || c = '\x7d'

def Mark.opens (m : Mark) : Bool := m.kind = .code && isOpener m.char

def Mark.closes (m : Mark) : Bool := m.kind = .code && isCloser m.char

/-- The bracket depth after a marked character; a closer without an opener leaves it at zero. -/
def Mark.depth (m : Mark) (depth : Nat) : Nat :=
  if m.opens then depth + 1 else if m.closes then depth - 1 else depth

end Parlance.Source
