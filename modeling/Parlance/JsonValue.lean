import Parlance.Text.Basic

/-!
JSON values and their indented text.
-/

namespace Parlance

/-- A JSON value without numbers. Objects keep the order of their fields. -/
inductive JsonValue where
  | null
  | bool (value : Bool)
  | string (value : Text)
  | array (items : List JsonValue)
  | object (fields : List (Text × JsonValue))

namespace JsonValue

def hexDigit (n : Nat) : Char := (Nat.toDigits 16 n).headD '0'

/-- A character between the quotes of a string: quotes, backslashes and control characters are
escaped. -/
def escape (c : Char) : Text :=
  if c = '"' then ['\\', '"'] else if c = '\\' then ['\\', '\\']
  else if c = '\x08' then ['\\', 'b'] else if c = '\t' then ['\\', 't']
  else if c = '\n' then ['\\', 'n'] else if c = '\x0c' then ['\\', 'f']
  else if c = '\r' then ['\\', 'r']
  -- the other control characters have no letter of their own
  else if c.toNat < 32 then "\\u00" ++ [hexDigit (c.toNat / 16), hexDigit (c.toNat % 16)]
  else [c]

def quoted (t : Text) : Text := '"' :: t.flatMap escape ++ ['"']

def newline (level : Nat) : Text := '\n' :: List.replicate (2 * level) ' '

/-- Items between brackets, each on a line of its own. -/
def bracketed (opener closer : Char) (level : Nat) (items : List Text) : Text :=
  if items.isEmpty then [opener, closer]
  else
    opener :: newline (level + 1) ++ Text.join (',' :: newline (level + 1)) items ++
      newline level ++ [closer]

mutual

/-- The indented text of a value at a level. -/
def textAt (level : Nat) : JsonValue → Text
  | .null => "null"
  | .bool true => "true"
  | .bool false => "false"
  | .string value => quoted value
  | .array items => bracketed '[' ']' level (itemTexts (level + 1) items)
  | .object fields => bracketed '\x7b' '\x7d' level (fieldTexts (level + 1) fields)

def itemTexts (level : Nat) : List JsonValue → List Text
  | [] => []
  | v :: rest => v.textAt level :: itemTexts level rest

def fieldTexts (level : Nat) : List (Text × JsonValue) → List Text
  | [] => []
  | (key, v) :: rest => (quoted key ++ ": " ++ v.textAt level) :: fieldTexts level rest

end

def text (v : JsonValue) : Text := v.textAt 0

end JsonValue

end Parlance
