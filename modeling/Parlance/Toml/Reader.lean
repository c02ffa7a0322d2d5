import Parlance.Toml.Scalar
import Parlance.Toml.Value

/-!
Reading TOML files.
-/

namespace Parlance.Toml

open TomlValue (Fields)

/-! ## Blanks and comments -/

def skipBlanks (t : Text) : Text := t.dropWhile fun c => c = ' ' || c = '\t'

/-- What follows a comment that may begin a text; it ends before the line break. -/
def skipComment (t : Text) : Text :=
  match t with
  | '#' :: rest => rest.dropWhile isPlain
  | t => t

/-- What follows the rest of a line: blanks, a comment and the line break or the end of the text. -/
def lineEnd? (t : Text) : Option Text :=
  match skipComment (skipBlanks t) with
  | [] => some []
  | '\n' :: rest => some rest
  | '\r' :: '\n' :: rest => some rest
  | _ => none

/-- What follows blanks, comments and line breaks; `steps` bounds their number. -/
def skipLines : (steps : Nat) → Text → Text
  | 0, t => t
  | steps + 1, t =>
    match skipComment (skipBlanks t) with
    | '\n' :: rest => skipLines steps rest
    | '\r' :: '\n' :: rest => skipLines steps rest
    | rest => rest

/-! ## Keys -/

def isKeyChar (c : Char) : Bool := c.isAlphanum || c = '_' || c = '-'

/-- Reads one part of a key: a word without quotes, or a string on one line. -/
def keyPart? : Text → Option (Text × Text)
  | '"' :: rest => basicString rest
  | '\x27' :: rest => literalString rest
  | t =>
    let name := t.takeWhile isKeyChar
    if name.isEmpty then none else some (name, t.dropWhile isKeyChar)

/-- Reads a key: parts with dots between them. The last part comes apart from those before it;
`steps` bounds their number. -/
def key? : (steps : Nat) → Text → Option ((List Text × Text) × Text)
  | 0, _ => none
  | steps + 1, t => do
    let (part, rest) ← keyPart? (skipBlanks t)
    match skipBlanks rest with
    | '.' :: rest =>
      let ((path, key), rest) ← key? steps rest
      some ((part :: path, key), rest)
    | rest => some (([], part), rest)

/-! ## Values -/

/-- Whether a character may stand in a number, a date, a time or a truth value. -/
def isTokenChar (c : Char) : Bool :=
  c.isAlphanum || c = '+' || c = '-' || c = '.' || c = '_' || c = ':'

/-- Reads a value that is not enclosed in anything. -/
def token? (t : Text) : Option (TomlValue × Text) :=
  let token := t.takeWhile isTokenChar
  let rest := t.dropWhile isTokenChar
  if token = "true".toList then some (.boolean true, rest)
  else if token = "false".toList then some (.boolean false, rest)
  else if isInteger token || isFloat token then some (.number token, rest)
  else if isMoment token then
    -- a date and a time of day with a space between them are one value
    match rest with
    | ' ' :: more =>
      let time := more.takeWhile isTokenChar
      if isDate token && isZonedTime time then
        some (.moment (token ++ ' ' :: time), more.dropWhile isTokenChar)
      else
        some (.moment token, rest)
    | _ => some (.moment token, rest)
  else none

mutual

/-- Reads a value and gives what follows it; `steps` bounds the number of values and separators in
it. -/
def value? : (steps : Nat) → Text → Option (TomlValue × Text)
  | 0, _ => none
  | steps + 1, t =>
    match t with
    | '[' :: rest => (items? steps rest).map fun (items, rest) => (.array items, rest)
    | '\x7b' :: rest =>
      match skipBlanks rest with
      | '\x7d' :: rest => some (.table .inline [], rest)
      | rest => (fields? steps [] rest).map fun (fields, rest) => (.table .inline fields, rest)
    | '"' :: _ | '\x27' :: _ => (string? t).map fun (value, rest) => (.string value, rest)
    | t => token? t

/-- Reads the items of an array after its bracket or a comma, up to and with the closing bracket. -/
def items? : (steps : Nat) → Text → Option (List TomlValue × Text)
  | 0, _ => none
  | steps + 1, t =>
    match skipLines steps t with
    -- no item, or a comma after the last one
    | ']' :: rest => some ([], rest)
    | t => do
      let (item, rest) ← value? steps t
      match skipLines steps rest with
      | ',' :: rest =>
        let (items, rest) ← items? steps rest
        some (item :: items, rest)
      | ']' :: rest => some ([item], rest)
      | _ => none

/-- Reads the fields of a table after its brace or a comma, up to and with the closing brace. -/
def fields? : (steps : Nat) → Fields → Text → Option (Fields × Text)
  | 0, _, _ => none
  | steps + 1, fields, t => do
    let ((path, key), rest) ← key? steps t
    match rest with
    | '=' :: rest =>
      let (value, rest) ← value? steps (skipBlanks rest)
      let fields ← TomlValue.insertDotted path key value fields
      match skipBlanks rest with
      | ',' :: rest => fields? steps fields rest
      | '\x7d' :: rest => some (fields, rest)
      | _ => none
    | _ => none

end

/-! ## Files -/

def assign (header path : List Text) (key : Text) (value : TomlValue) (fields : Fields) :
    Option Fields :=
  TomlValue.change false (fun _ inner => TomlValue.insertDotted path key value inner) header .header
    fields

/-- Reads the lines of a file. `header` is the path of the current table, `steps` bounds the number
of lines. -/
def readLines : (steps : Nat) → (header : List Text) → Fields → Text → Option Fields
  | 0, _, _, _ => none
  | steps + 1, header, fields, t =>
    match skipLines (steps + 1) t with
    | [] => some fields
    -- one more table under a header in double brackets
    | '[' :: '[' :: rest => do
      let ((path, key), rest) ← key? (steps + 1) rest
      match rest with
      | ']' :: ']' :: rest =>
        readLines steps (path ++ [key]) (← TomlValue.openElement path key fields) (← lineEnd? rest)
      | _ => none
    -- the header of a table
    | '[' :: rest => do
      let ((path, key), rest) ← key? (steps + 1) rest
      match rest with
      | ']' :: rest =>
        readLines steps (path ++ [key]) (← TomlValue.openTable path key fields) (← lineEnd? rest)
      | _ => none
    -- a key of the table that the last header opened
    | t => do
      let ((path, key), rest) ← key? (steps + 1) t
      match rest with
      | '=' :: rest =>
        let (value, rest) ← value? (steps + 1) (skipBlanks rest)
        readLines steps header (← assign header path key value fields) (← lineEnd? rest)
      | _ => none

/-- A text without a byte order mark at its start. -/
def withoutMark : Text → Text
  | '\uFEFF' :: rest => rest
  | t => t

/-- The fields of a TOML file, unless it is malformed or defines something twice. -/
def read? (t : Text) : Option Fields :=
  let t := withoutMark t
  readLines (t.length + 1) [] [] t

end Parlance.Toml
