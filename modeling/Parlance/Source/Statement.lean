import Parlance.Source.Lexical

/-!
Statements of a body and arguments of a call: both cut a text at separators that stand in code
outside all brackets.
-/

namespace Parlance.Source

/-! ## Arguments -/

/-- Cuts marked characters at the commas outside brackets; `piece` is the argument being read, last
character first. -/
def splitCommas (piece : Text) (depth : Nat) : List Mark → List Text
  | [] => [Text.trim piece.reverse]
  | m :: rest =>
    if m.isCode ',' && depth = 0 then
      Text.trim piece.reverse :: splitCommas [] depth rest
    else
      splitCommas (m.char :: piece) (m.depth depth) rest

/-- The arguments of an argument list, trimmed; a blank list has none. -/
def splitArguments (t : Text) : List Text :=
  if Text.allBlank t then [] else splitCommas [] 0 (marks t)

/-- Whether marked characters hold an arrow whose first half is code. -/
def hasArrow : List Mark → Bool
  | [] => false
  | m :: rest => (m.isCode '=' && rest.head?.any fun next => next.char = '>') || hasArrow rest

def isFunction (argument : Text) : Bool :=
  -- a function may be async
  let argument := (Text.after? "async" argument).elim argument Text.trimStart
  Text.startsWith argument "function"

/-- Whether an argument list passes a callback: an arrow anywhere, or an argument that is a
function. -/
def takesCallback (t : Text) : Bool := hasArrow (marks t) || (splitArguments t).any isFunction

/-! ## Statements -/

/-- The characters after which an expression goes on in the next line. -/
def isContinuing (c : Char) : Bool := ".,(=+-*&|?:>".toList.contains c

/-- Whether a line break between `before` and `after` stands inside an expression. -/
def continuesChain (before after : Text) : Bool :=
  let before := Text.trimEnd before
  -- nothing has been read, or what has been read is a line comment
  if before.isEmpty || Text.startsWith (Text.trimStart before) "//" then false
  else Text.startsWith (Text.trimStart after) "." || before.getLast?.any isContinuing

/-- A trimmed text as a statement, unless nothing is left of it. -/
def statement (t : Text) : List Text :=
  let t := Text.trim t
  if t.isEmpty then [] else [t]

/-- Whether a marked character begins a comment outside brackets, after `last`. -/
def Mark.startsComment (m : Mark) (last : Kind) (depth : Nat) : Bool :=
  m.kind = .comment && last ≠ .comment && depth = 0

/-- Whether a marked character ends the statement `piece` that it follows: a semicolon, or a line
break at which the expression does not go on. -/
def Mark.endsStatement (m : Mark) (piece : Text) (depth : Nat) (rest : List Mark) : Bool :=
  depth = 0 &&
    (m.isCode ';' || (m.isCode '\n' && !continuesChain piece.reverse (unmark rest)))

/-- Cuts marked characters into statements. `piece` is the statement being read, last character
first, `last` what the character before belongs to. -/
def splitMarks (piece : Text) (depth : Nat) (last : Kind) : List Mark → List Text
  | [] => statement piece.reverse
  | m :: rest =>
    -- a comment behind code is a statement of its own, on the same line or not
    if m.startsComment last depth && !Text.allBlank piece then
      statement piece.reverse ++ splitMarks [m.char] depth m.kind rest
    else if m.endsStatement piece depth rest then
      statement piece.reverse ++ splitMarks [] depth m.kind rest
    else
      splitMarks (m.char :: piece) (m.depth depth) m.kind rest

/-- The statements of a body, trimmed and without their semicolons. A comment outside brackets is a
statement of its own. -/
def splitStatements (t : Text) : List Text := splitMarks [] 0 .code (marks t)

end Parlance.Source
