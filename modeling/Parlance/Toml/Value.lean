import Parlance.Text.Basic

/-!
TOML values, and how tables grow while a file is read: which table a key belongs to, and which keys
and headers would define something twice.
-/

namespace Parlance

/-- How a table came to be: written between braces, after which nothing can be added to it; named by
a header of its own, as the file itself is; named only on the way to the table of a header; or named
on the way to a dotted key. -/
inductive TableOrigin where
  | inline
  | header
  | implied
  | dotted
deriving DecidableEq, Repr

/-- A TOML value. Numbers, dates and times are kept as written. -/
inductive TomlValue where
  | string (value : Text)
  | boolean (value : Bool)
  | number (written : Text)
  | moment (written : Text)
  | array (items : List TomlValue)
  | tables (items : List TomlValue)
  | table (origin : TableOrigin) (fields : List (Text × TomlValue))

namespace TomlValue

/-- The fields of a table, in the order in which they were defined. -/
abbrev Fields := List (Text × TomlValue)

def replace (key : Text) (value : TomlValue) (fields : Fields) : Fields :=
  fields.map fun (k, v) => if k = key then (k, value) else (k, v)

/-- Changes the table at the end of a path. -/
def change (isDotted : Bool) (edit : TableOrigin → Fields → Option Fields) :
    (path : List Text) → TableOrigin → Fields → Option Fields
  | [], origin, fields => edit origin fields
  | key :: path, _, fields =>
    match fields.lookup key with
    | none =>
      -- a table that is missing on the way is made
      let made : TableOrigin := if isDotted then .dotted else .implied
      (change isDotted edit path made []).map fun inner => fields ++ [(key, .table made inner)]
    | some (.table origin inner) =>
      -- a dotted key does not pass through the table of a header
      if origin = .inline || (isDotted && origin = .header) then none
      else
        (change isDotted edit path origin inner).map fun inner =>
          replace key (.table origin inner) fields
    -- a path through tables in double brackets goes on in the last of them
    | some (.tables items) =>
      match items.getLast? with
      | some (.table origin inner) =>
        (change isDotted edit path origin inner).map fun inner =>
          replace key (.tables (items.dropLast ++ [.table origin inner])) fields
      | _ => none
    -- nothing passes through a value
    | some _ => none

def insert (key : Text) (value : TomlValue) (fields : Fields) : Option Fields :=
  if (fields.lookup key).isSome then none else some (fields ++ [(key, value)])

/-- Adds a key, with the names on the way to it, to a table. All but the table itself have to be
dotted tables. -/
def insertDotted (path : List Text) (key : Text) (value : TomlValue) (fields : Fields) :
    Option Fields :=
  change true
    (fun origin inner =>
      -- the way to the key may only pass through dotted tables
      if path.isEmpty || origin = .dotted then insert key value inner else none)
    path .header fields

/-- Makes the table of a header; only a table named on the way to others may be there already. -/
def openTable (path : List Text) (key : Text) (fields : Fields) : Option Fields :=
  change false
    (fun _ inner =>
      match inner.lookup key with
      | none => some (inner ++ [(key, .table .header [])])
      -- so far the table was only named on the way to others
      | some (.table .implied made) => some (replace key (.table .header made) inner)
      | some _ => none)
    path .header fields

/-- Adds a table to those of a header in double brackets. -/
def openElement (path : List Text) (key : Text) (fields : Fields) : Option Fields :=
  change false
    (fun _ inner =>
      match inner.lookup key with
      | none => some (inner ++ [(key, .tables [.table .header []])])
      | some (.tables items) =>
        some (replace key (.tables (items ++ [.table .header []])) inner)
      | some _ => none)
    path .header fields

end TomlValue

end Parlance
