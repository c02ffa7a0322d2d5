import Parlance.Source.Literal
import Parlance.Text.Numeral

/-!
How written code looks: its indentation, its quotes and whether it has a header line.
-/

namespace Parlance

inductive Indent where
  | spaces (width : Nat)
  | tabs
deriving DecidableEq, Repr

inductive Quote where
  | single
  | double
deriving DecidableEq, Repr

/-- How written code looks. -/
structure Style where
  indent : Indent := .spaces 4
  quote : Quote := .single
  /-- Whether the target's import or reference line stands before all else. -/
  header : Bool := true
deriving DecidableEq, Repr

/-- What is wrong with a style or with the text that was to name one. -/
inductive StyleError where
  | indentation (given : Text)
  | quoteStyle (given : Text)
  | width (given : Nat)
deriving DecidableEq, Repr

def maxIndent : Nat := 16

/-- The wording of a style error. -/
def StyleError.message (e : StyleError) : Text :=
  "Invalid style option: " ++ match e with
  | .indentation given => "indentation '" ++ given ++ "'"
  | .quoteStyle given => "quote style '" ++ given ++ "'"
  | .width given => "indent width " ++ Text.ofNat given ++ " outside 1..=" ++ Text.ofNat maxIndent

def isIndentWidth (n : Nat) : Bool := 1 ≤ n && n ≤ maxIndent

namespace Indent

def unit : Indent → Text
  | .spaces width => List.replicate width ' '
  | .tabs => ['\t']

/-- The indentation a text names: tabs, spaces (four of them) or a number of spaces. -/
def ofText (t : Text) : Except StyleError Indent :=
  let word := Text.lower (Text.trim t)
  if word = "tab".toList || word = "tabs".toList then .ok .tabs
  else if word = "space".toList || word = "spaces".toList then .ok (.spaces 4)
  else
    -- a number out of range is as unknown as a word
    match (Text.natural? word).filter isIndentWidth with
    | some width => .ok (.spaces width)
    | none => .error (.indentation t)

end Indent

namespace Quote

def char : Quote → Char
  | .single => '\x27'
  | .double => '"'

def name : Quote → Text
  | .single => "single"
  | .double => "double"

/-- The quotes a text names, by word or by the character itself. -/
def ofText (t : Text) : Except StyleError Quote :=
  let word := Text.lower (Text.trim t)
  match [Quote.single, .double].find? fun q => word = q.name || word = [q.char] with
  | some quote => .ok quote
  | none => .error (.quoteStyle t)

def escape (q : Quote) (c : Char) : Text :=
  if c = '\\' then ['\\', '\\'] else if c = '\n' then ['\\', 'n']
  else if c = '\t' then ['\\', 't'] else if c = q.char then ['\\', c] else [c]

end Quote

namespace Style

/-- Accepts a style whose indentation is not too wide and not empty. -/
def validate (s : Style) : Except StyleError Unit :=
  match s.indent with
  | .spaces width => if isIndentWidth width then .ok () else .error (.width width)
  | .tabs => .ok ()

def indentation (s : Style) (level : Nat) : Text := (List.replicate level s.indent.unit).flatten

/-- The literal of a text in the quotes of a style. -/
def literal (s : Style) (t : Text) : Text :=
  s.quote.char :: t.flatMap s.quote.escape ++ [s.quote.char]

/-- An expression with the quotes of a style, if it is a single- or double-quoted literal; template
literals and all other expressions are only trimmed. -/
def requote (s : Style) (expr : Text) : Text :=
  let expr := Text.trim expr
  -- a template may hold expressions, which no plain literal can
  if Text.firstIs (· = '\x60') expr then expr else (Source.unquote expr).elim expr s.literal

end Style

end Parlance
