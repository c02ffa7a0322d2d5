import Parlance.Text.Basic

/-!
Blank characters are those with the Unicode property White_Space. Trimming, words and lines of a
text are taken by them.
-/

namespace Parlance

/-- Whether a character has the Unicode property White_Space. -/
def isBlank (c : Char) : Bool :=
  let n := c.toNat
  -- the tab up to the carriage return, and the space; all others lie beyond ASCII
  (9 ≤ n && n ≤ 13) || n == 32 ||
    (128 ≤ n && (n == 0x85 || n == 0xA0 || n == 0x1680 || (0x2000 ≤ n && n ≤ 0x200A) ||
      n == 0x2028 || n == 0x2029 || n == 0x202F || n == 0x205F || n == 0x3000))

/-- The blanks allowed around the names, dots and parentheses of a call chain: the ASCII ones
without the vertical tab. -/
def isCodeBlank (c : Char) : Bool :=
  c = ' ' || c = '\t' || c = '\n' || c = '\x0c' || c = '\r'

theorem isBlank_of_isCodeBlank {c : Char} (h : isCodeBlank c = true) : isBlank c = true := by
  simp only [isCodeBlank, Bool.or_eq_true, decide_eq_true_eq] at h
  rcases h with (((rfl | rfl) | rfl) | rfl) | rfl <;> decide

namespace Text

def trimStart (t : Text) : Text := t.dropWhile isBlank

def trimEnd : Text → Text
  | [] => []
  | c :: rest =>
    match trimEnd rest with
    | [] => if isBlank c then [] else [c]
    | kept => c :: kept

def trim (t : Text) : Text := trimEnd (trimStart t)

def allBlank (t : Text) : Bool := t.all isBlank

/-- The maximal runs of non-blank characters; `run` is the one being read, last character first. -/
def wordsFrom (run : Text) : Text → List Text
  | [] => if run.isEmpty then [] else [run.reverse]
  | c :: rest =>
    if isBlank c then
      -- several blanks in a row end one word only
      if run.isEmpty then wordsFrom [] rest else run.reverse :: wordsFrom [] rest
    else
      wordsFrom (c :: run) rest

/-- The words of a text: its maximal runs of non-blank characters. -/
def words (t : Text) : List Text := wordsFrom [] t

/-- The words of a text with one space between neighbours. -/
def oneLine (t : Text) : Text := join [' '] (words t)

/-- Drops one carriage return from the end of a line that a line feed ended; `line` has its last
character first. -/
def endedLine : Text → Text
  | '\r' :: line => line.reverse
  | line => line.reverse

/-- The lines of a text; `line` is the one being read, last character first. -/
def linesFrom (line : Text) : Text → List Text
  | [] => if line.isEmpty then [] else [line.reverse]
  | c :: rest =>
    if c = '\n' then endedLine line :: linesFrom [] rest else linesFrom (c :: line) rest

/-- The lines of a text, each ended by a line feed, with or without a carriage return before it, or
by the end of the text. A text that ends with a line feed has no empty last line. -/
def lines (t : Text) : List Text := linesFrom [] t

def firstLine (t : Text) : Text := trim ((lines t).headD [])

end Text

end Parlance
