import Parlance.Draft.Document
import Parlance.JsonValue

/-!
Conversion of a source from one vocabulary to another.
-/

namespace Parlance

/-- Why there is no conversion. -/
inductive ConversionError where
  | unsupportedPair (source target : Framework)
  | invalidStyle (error : StyleError)
deriving DecidableEq, Repr

def ConversionError.message : ConversionError → Text
  | .unsupportedPair source target =>
    "Unsupported conversion: " ++ source.name ++ " -> " ++ target.name
  | .invalidStyle error => error.message

/-- How a conversion ended. -/
structure Outcome where
  success : Bool
  code : Text
  warnings : List Text
  errors : List Text
deriving DecidableEq, Repr

namespace Outcome

def converted (code : Text) (warnings : List Text) : Outcome := ⟨true, code, warnings, []⟩

def failed (message : Text) : Outcome := ⟨false, [], [], [message]⟩

def toJson (o : Outcome) : JsonValue :=
  .object
    [("success", .bool o.success), ("convertedCode", .string o.code),
      ("warnings", .array (o.warnings.map .string)), ("errors", .array (o.errors.map .string))]

end Outcome

namespace Route

/-- The route between two vocabularies, which have to differ. -/
def between (source target : Framework) (style : Style) : Except ConversionError Route :=
  if source = target then .error (.unsupportedPair source target) else .ok ⟨source, target, style⟩

def unclosedAdvice (title : Text) : Text :=
  "Block '" ++ title ++ "' is not terminated; its body was read to end of input"

/-- Writes a source in the target vocabulary. -/
def draft (r : Route) (source : Text) : Draft :=
  let d := Document.ofSource r.source source
  -- without declarations, commands are loose statements; other sources are left alone
  if d.isEmpty then
    if Slot.command.occursIn r.source source then r.snippet source else { text := source }
  else
    let written := r.document d
    ⟨written.text, written.advisories ++ d.unterminated.map unclosedAdvice⟩

/-- Converts a source. A blank source stays as it is. -/
def convert (r : Route) (source : Text) : Outcome :=
  if Text.allBlank source then .converted source []
  else
    match r.style.validate with
    | .error e => .failed (ConversionError.message (.invalidStyle e))
    | .ok () =>
      let draft := r.draft source
      .converted draft.text
        (Advisory.merge (Advisory.messages r.source r.target source) draft.advisories)

end Route

/-- Converts a source between two vocabularies in a style. -/
def convert (source target : Framework) (style : Style) (t : Text) : Outcome :=
  match Route.between source target style with
  | .ok route => route.convert t
  | .error e => .failed e.message

end Parlance
