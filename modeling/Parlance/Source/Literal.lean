import Parlance.Source.Lexical

/-!
String and template literals: taking the quotes and escapes away, and putting them on.
-/

namespace Parlance.Source

/-- The text with its backslash escapes undone. -/
def unescape : Text → Text
  | [] => []
  | '\\' :: c :: rest =>
    -- two letters stand for blanks, any other character for itself
    (if c = 'n' then '\n' else if c = 't' then '\t' else c) :: unescape rest
  -- also a last backslash that nothing follows
  | c :: rest => c :: unescape rest

/-- The contents of a literal up to its closing quote, and what follows the quote. -/
def splitLiteral (quote : Char) : Text → Option (Text × Text)
  | [] => none
  | '\\' :: c :: rest =>
    (splitLiteral quote rest).map fun (inner, tail) => ('\\' :: c :: inner, tail)
  | c :: rest =>
    if c = quote then some ([], rest)
    else (splitLiteral quote rest).map fun (inner, tail) => (c :: inner, tail)

/-- The value of an expression that is a single literal. -/
def unquote (t : Text) : Option Text :=
  match Text.trim t with
  | [] => none
  | quote :: rest =>
    if isQuote quote then
      match splitLiteral quote rest with
      | some (inner, []) => some (unescape inner)
      | _ => none
    else
      none

def escapeSingle (c : Char) : Text :=
  if c = '\\' then ['\\', '\\'] else if c = '\x27' then ['\\', '\x27']
  else if c = '\n' then ['\\', 'n'] else [c]

def literal (t : Text) : Text := '\x27' :: t.flatMap escapeSingle ++ ['\x27']

end Parlance.Source
