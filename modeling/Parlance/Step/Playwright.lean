import Parlance.Source.Chain
import Parlance.Step.Basic

/-!
Reading awaited calls on the page and their checks as steps.
-/

namespace Parlance

open Source (Link)

/-- A statement without the word that awaits it. -/
def unawaited (statement : Text) : Text :=
  match Text.after? "await" statement with
  | some rest => if Text.firstIs isBlank rest then Text.trim rest else statement
  | none => statement

def readCall (name args : Text) : Command := .call (Action.lookup .playwright name) name args

/-- The commands of a call on the page itself. -/
def readPageCall (name args : Text) : List Command :=
  let action := Action.lookup .playwright name
  match action.value?.map Action.kind, Source.splitArguments args with
  -- the first argument names the element
  | some .element, selector :: rest =>
    [.call (.known .locate) "locator" selector, .call action name (Text.join ", " rest)]
  | _, _ => [readCall name args]

/-- The commands of calls on what the page gave. -/
def readCalls : List Link → Option (List Command)
  | [] => some []
  | link :: rest => do
    let args ← link.args
    let commands ← readCalls rest
    some (readCall link.name args :: commands)

/-- The commands of a chain after the page. -/
def readPage : List Link → Option (List Command)
  | [] => some []
  | link :: rest => do
    let args ← link.args
    let commands ← readCalls rest
    some (readPageCall link.name args ++ commands)

/-- The query that a link of a chain is, if it is one. -/
def readQuery (link : Link) : Option Query := do
  let action ← (Action.lookup .playwright link.name).value?
  let args ← link.args
  if action.isQuery then some ⟨action, Text.trim args⟩ else none

/-- What an expression under check is about: the page, an element that the page's queries reach, or
a plain value. -/
def readCheckedSubject (expr : Text) : Subject :=
  let expr := Text.trim expr
  match Source.readChain expr with
  | some (root :: rest) =>
    if root.name = "page".toList && root.args.isNone then
      if rest.isEmpty then .page else (rest.mapM readQuery).elim (.value expr) .element
    else
      .value expr
  | _ => .value expr

/-- The check of an expression: a matcher call, perhaps after `not`. -/
def readMatcher (source subject : Text) (links : List Link) : Option Assertion := do
  let matcher ← links.getLast?
  let args ← matcher.args
  -- only the negation may stand before the matcher
  if links.dropLast.any fun link => link.name ≠ "not".toList || link.args.isSome then none
  else
    some ⟨readCheckedSubject subject, Expectation.lookup .playwright matcher.name,
      !links.dropLast.isEmpty, nonEmpty? (Text.trim args), source⟩

def readPlaywright (statement : Text) : Option (List Step) := do
  let links ← Source.readChain (unawaited statement)
  match links with
  | [] => none
  | root :: rest =>
    match root.args with
    | none =>
      if root.name = "page".toList then (readPage rest).map fun commands => [.chain commands]
      else none
    | some subject =>
      if root.name = "expect".toList then
        (readMatcher statement subject rest).map fun assertion => [.verify assertion]
      else
        none

end Parlance
