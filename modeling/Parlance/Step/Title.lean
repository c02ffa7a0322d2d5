import Parlance.Source.Literal
import Parlance.Step.Basic
import Parlance.Text.Numeral

/-!
Reading the titles of steps: the words of a command, its target and its value, or the words of a
check.
-/

namespace Parlance

/-- Whether a text reads as an expression: a literal, a number, an object or an array. -/
def isExpression (t : Text) : Bool :=
  (Source.unquote t).isSome || Text.isDecimal t || Text.firstIs (fun c => c = '\x7b' || c = '[') t

/-- A text as an argument list: as it is if all its parts read as expressions, and else as one
literal. -/
def argumentExpression (t : Text) : Text :=
  let t := Text.trim t
  let parts := Source.splitArguments t
  if !parts.isEmpty && parts.all isExpression then t else Source.literal t

/-- The query that a target describes: a word for the kind of query and its argument, or a plain
selector. -/
def readTarget (t : Text) : Option Query :=
  let t := Text.trim t
  if t.isEmpty then none
  else
    let (action, selector) := (Action.ofTarget? t).getD (.locate, t)
    some ⟨action, argumentExpression selector⟩

/-- The target and the value of a title, divided by the last `with` between spaces. -/
def splitValue (t : Text) : Text × Text :=
  match Text.splitLast? " with " t with
  | some (target, value) => (target, Text.trim value)
  | none => (t, [])

def readActionTitle (title : Text) : Option (List Command) := do
  let (action, rest) ← Action.ofTitle? title
  match action.kind with
  | .page =>
    let args := if rest.isEmpty then [] else argumentExpression rest
    some [.call (.known action) action.label args]
  | .query => some [.ofQuery .testRail (← readTarget rest)]
  | .element =>
    let (target, value) := splitValue rest
    some [.ofQuery .testRail (← readTarget target), .call (.known action) action.label value]

def readSubject (t : Text) : Option Subject :=
  if t.isEmpty then none
  else if t = "page".toList then some .page
  else
    match Text.after? "value " t with
    | some expr => some (.value (Text.trim expr))
    | none => (readTarget t).map fun query => .element [query]

/-- The check that a title describes, made by the statement `source`. -/
def readVerification (source t : Text) : Option Assertion := do
  let phrase ← Expectation.splitPhrase t
  let subject ← readSubject phrase.subject
  some ⟨subject, .known phrase.expectation, phrase.negated, nonEmpty? phrase.argument, source⟩

end Parlance
