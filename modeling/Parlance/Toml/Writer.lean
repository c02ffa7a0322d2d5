import Parlance.Toml.Scalar

/-!
Writing TOML strings in their plainest form.
-/

namespace Parlance.Toml

def hasQuotes (count : Nat) (t : Text) : Bool := Text.holds (List.replicate count '\x27') t

/-- Whether a string is written without escapes: it has something to escape, all its characters can
stand as they are, and its quotes cannot be taken for the closing ones. -/
def isLiteralForm (t : Text) : Bool :=
  t.any (fun c => c = '"' || c = '\\') && t.all (fun c => isPlain c || c = '\n') &&
    !hasQuotes 3 t && t.getLast? ≠ some '\x27'

def codeEscape (c : Char) : Text :=
  let digit (n : Nat) : Char := ((Nat.toDigits 16 (n % 16)).headD '0').toUpper
  "\\u00" ++ [digit (c.toNat / 16), digit c.toNat]

/-- A character between double quotes. -/
def escape (keepBreaks : Bool) (c : Char) : Text :=
  if c = '\x08' then ['\\', 'b'] else if c = '\t' then ['\\', 't']
  else if c = '\n' then if keepBreaks then ['\n'] else ['\\', 'n']
  else if c = '\x0c' then ['\\', 'f'] else if c = '\r' then ['\\', 'r']
  else if c = '"' then ['\\', '"'] else if c = '\\' then ['\\', '\\']
  else if c.toNat < 32 || c.toNat = 127 then codeEscape c
  else [c]

/-- A string as it is written in a file. Line breaks are kept, and then the string begins on a line
of its own. -/
def quoted (t : Text) : Text :=
  let hasBreaks := t.contains '\n'
  -- without escapes where the text allows it, and then with as few quotes as it allows
  if isLiteralForm t then
    if hasBreaks then "'''\n" ++ t ++ "'''"
    else if hasQuotes 1 t then "'''" ++ t ++ "'''"
    else "'" ++ t ++ "'"
  else if hasBreaks then "\"\"\"\n" ++ t.flatMap (escape true) ++ "\"\"\""
  else "\"" ++ t.flatMap (escape false) ++ "\""

end Parlance.Toml
