import Parlance.Framework
import Parlance.Style
import Parlance.Toml.Reader
import Parlance.Toml.Writer

/-!
Settings: the vocabularies and the style that are used when the command line names none, and their
form in a file.
-/

namespace Parlance

/-- What is used unless the command line says otherwise. The style is kept as it is written. -/
structure Settings where
  /-- The source vocabulary when a source does not give its own away. -/
  defaultSource : Option Framework := none
  defaultTarget : Framework := .playwright
  indentation : Text := "4"
  quoteStyle : Text := "single"
  emitHeader : Bool := true
deriving DecidableEq, Repr

namespace Settings

def style (s : Settings) : Except StyleError Style := do
  let indent ← Indent.ofText s.indentation
  let quote ← Quote.ofText s.quoteStyle
  pure ⟨indent, quote, s.emitHeader⟩

/-! ## Reading -/

def isVoid : TomlValue → Bool
  | .array [] | .table _ [] => true
  | _ => false

/-- The vocabulary that a value names: its name, or a table with the name as its only key and
nothing under it. -/
def framework? : TomlValue → Option Framework
  | .string name => Framework.ofName? name
  | .table _ [(name, value)] => if isVoid value then Framework.ofName? name else none
  | _ => none

def text? : TomlValue → Option Text
  | .string t => some t
  | _ => none

def bool? : TomlValue → Option Bool
  | .boolean b => some b
  | _ => none

/-- The fields of a group of settings, which is a table or the array of its values in order. A date
has none of them. -/
def group? (keys : List Text) : TomlValue → Option TomlValue.Fields
  | .table _ fields => some fields
  -- without their names, the values of a group are told by their places
  | .array items | .tables items => some (keys.zip items)
  | .moment _ => some []
  | .string _ | .boolean _ | .number _ => none

/-- The value of a field, or the given one if it is missing; a field of another kind is an error. -/
def field {α : Type} (fields : TomlValue.Fields) (key : Text) (read? : TomlValue → Option α)
    (default : α) : Option α :=
  match fields.lookup key with
  | none => some default
  | some value => read? value

/-- The fields of a group in a file; a missing group has none. -/
def groupIn (fields : TomlValue.Fields) (name : Text) (keys : List Text) :
    Option TomlValue.Fields :=
  field fields name (group? keys) []

/-- The settings of a file. Missing fields keep their defaults, and unknown ones do not matter. -/
def ofFields (fields : TomlValue.Fields) : Option Settings := do
  let frameworks ← groupIn fields "frameworks" ["default_source", "default_target"]
  let codeStyle ← groupIn fields "code_style" ["indentation", "quote_style", "emit_header"]
  let defaults : Settings := {}
  some {
    defaultSource :=
      ← field frameworks "default_source" (fun v => (framework? v).map some) defaults.defaultSource
    defaultTarget := ← field frameworks "default_target" framework? defaults.defaultTarget
    indentation := ← field codeStyle "indentation" text? defaults.indentation
    quoteStyle := ← field codeStyle "quote_style" text? defaults.quoteStyle
    emitHeader := ← field codeStyle "emit_header" bool? defaults.emitHeader }

def ofText? (t : Text) : Option Settings := (Toml.read? t).bind ofFields

/-! ## Writing -/

def entry (key value : Text) : Text := key ++ " = " ++ value ++ ['\n']

def toText (s : Settings) : Text :=
  "[frameworks]\n" ++
    (s.defaultSource.map fun f => entry "default_source" (Toml.quoted f.name)).getD [] ++
    entry "default_target" (Toml.quoted s.defaultTarget.name) ++ "\n[code_style]\n" ++
    entry "indentation" (Toml.quoted s.indentation) ++
    entry "quote_style" (Toml.quoted s.quoteStyle) ++
    entry "emit_header" (if s.emitHeader then "true" else "false")

end Settings

end Parlance
