import Parlance.JsonValue
import Parlance.Text.Width

/-!
Lists on the terminal: as a table with borders, as JSON or as plain lines.
-/

namespace Parlance

/-- The form in which lists and outcomes are shown. -/
inductive OutputFormat where
  | table
  | json
  | plain
deriving DecidableEq, Repr

namespace OutputFormat

def name : OutputFormat → Text
  | .table => "table"
  | .json => "json"
  | .plain => "plain"

def ofName? (name : Text) : Option OutputFormat :=
  [OutputFormat.table, .json, .plain].find? fun f => f.name = name

end OutputFormat

/-- A list to be shown: the names of its columns, and for each item its cells and its JSON. -/
structure Listing where
  columns : List Text
  items : List (List Text × JsonValue)

namespace Listing

/-- A horizontal line of a table: its left end, its filling, its crossings and its right end. -/
structure Rule where
  left : Char
  filling : Char
  crossing : Char
  right : Char

def topRule : Rule := ⟨'┌', '─', '┬', '┐'⟩

def headRule : Rule := ⟨'╞', '═', '╪', '╡'⟩

def itemRule : Rule := ⟨'├', '╌', '┼', '┤'⟩

def bottomRule : Rule := ⟨'└', '─', '┴', '┘'⟩

/-- A horizontal line over columns of some widths, with a place on both sides of each cell. -/
def Rule.text (r : Rule) (widths : List Nat) : Text :=
  r.left :: Text.join [r.crossing] (widths.map fun w => List.replicate (w + 2) r.filling) ++
    [r.right]

def cell (width : Nat) (t : Text) : Text :=
  ' ' :: t ++ List.replicate (width - Text.width t + 1) ' '

def line (widths : List Nat) (cells : List Text) : Text :=
  '│' :: Text.join ['┆'] (List.zipWith cell widths cells) ++ ['│']

def cellLines (t : Text) : List Text := t.splitOn '\n'

/-- The lines of a row: as many as its tallest cell has. -/
def row (widths : List Nat) (cells : List Text) : List Text :=
  let cells := cells.map cellLines
  let height := (cells.map List.length).foldl max 0
  -- a cell with fewer lines is filled up with empty ones
  (List.range height).map fun i => line widths (cells.map fun lines => lines.getD i [])

def cellWidth (t : Text) : Nat := ((cellLines t).map Text.width).foldl max 0

/-- The widths of the columns: those of their widest cells. -/
def widths (l : Listing) : List Nat :=
  l.items.foldl (fun ws item => List.zipWith max ws (item.1.map cellWidth))
    (l.columns.map cellWidth)

def table (l : Listing) : Text :=
  let widths := l.widths
  let rows := (l.items.map fun item => row widths item.1).intersperse [itemRule.text widths]
  let lines :=
    topRule.text widths :: row widths l.columns ++ headRule.text widths :: rows.flatten ++
      [bottomRule.text widths]
  lines.flatMap (· ++ ['\n'])

/-- A list as it is shown in a form. -/
def textIn (l : Listing) (format : OutputFormat) : Text :=
  match format with
  | .json => (JsonValue.array (l.items.map Prod.snd)).text ++ ['\n']
  | .table | .plain =>
    -- an array without items speaks for itself, the other forms do not
    if l.items.isEmpty then "No items found.\n"
    else if format = .table then l.table
    else l.items.flatMap fun item => Text.join ['\t'] item.1 ++ ['\n']

end Listing

end Parlance
