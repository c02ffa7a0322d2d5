import Parlance.Draft.Basic
import Parlance.Draft.Title

/-!
Writing elements and checks in each vocabulary.
-/

namespace Parlance

def isPatternSpecial (c : Char) : Bool := "\\^$.|?*+()[]\x7b\x7d/".toList.contains c

/-- The regular expression literal that matches every text holding the given one. -/
def urlPattern (t : Text) : Text :=
  '/' :: t.flatMap (fun c => if isPatternSpecial c then ['\\', c] else [c]) ++ ['/']

/-- Whether an expression is a regular expression literal. -/
def isPatternLiteral (expr : Text) : Bool :=
  match Text.trim expr with
  | '/' :: rest =>
    -- something between two slashes, and letters after the last one
    let flags := (rest.reverse.takeWhile (· ≠ '/'))
    flags.all Char.isAlpha && flags.length + 1 < rest.length
  | _ => false

namespace Route

/-- One query of a chain of calls; the first one of a chain starts from the whole page. -/
def cypressQuery (r : Route) (isFirst : Bool) (q : Query) : Option Text :=
  let method : Text := if isFirst then ".get(" else ".find("
  match q.action with
  | .locate => some (method ++ r.style.requote q.selector ++ ")")
  | .locateText => some (".contains(" ++ r.arguments q.selector ++ ")")
  | .locateTestId => do
    let id ← Source.unquote q.selector
    some (method ++ r.style.literal ("[data-testid=\"" ++ id ++ "\"]") ++ ")")
  | _ => none

def cypressLocator (r : Route) : List Query → Option Text
  | [] => some "cy"
  | first :: rest => do
    let head ← r.cypressQuery true first
    let tail ← rest.mapM (r.cypressQuery false)
    some ("cy" ++ head ++ tail.flatten)

def playwrightQuery (r : Route) (q : Query) : Text :=
  "." ++ (q.action.name? .playwright).getD "locator" ++ "(" ++ r.arguments q.selector ++ ")"

def playwrightLocator (r : Route) (queries : List Query) : Text :=
  "page" ++ queries.flatMap r.playwrightQuery

/-- A check as a chained call, if it can be said so. -/
def cypressCheck (r : Route) (a : Assertion) (expectation : Expectation) : Option Text := do
  let negation : Text := if a.negated then "not." else ""
  let args := a.argument.map r.arguments
  match a.subject, expectation with
  | .page, .haveUrl =>
    let args ← args
    -- a pattern is matched, a plain address is looked for
    let verb : Text := if isPatternLiteral args then "match" else "include"
    some ("cy.url().should(" ++ r.style.literal (negation ++ verb) ++ ", " ++ args ++ ");")
  | .page, .haveTitle =>
    let args ← args
    some ("cy.title().should(" ++ r.style.literal (negation ++ "eq") ++ ", " ++ args ++ ");")
  | .page, _ => none
  | .element queries, _ =>
    let locator ← r.cypressLocator queries
    let verb ← expectation.name? .cypress
    some (locator ++ ".should(" ++ r.style.literal (negation ++ verb) ++
      (args.map (", ".toList ++ ·)).getD [] ++ ");")
  | .value expr, _ =>
    let verb ← expectation.name? .cypress
    -- a check that compares with nothing is a property, not a call
    let call : Text :=
      match args with
      | some args => "(" ++ args ++ ")"
      | none => if expectation.takesArgument then "()" else ""
    some ("expect(" ++ expr ++ ").to." ++ negation ++ verb ++ call ++ ";")

/-- The arguments of a matcher. -/
def matcherArguments (r : Route) (a : Assertion) (expectation : Expectation) : Text :=
  let args := (a.argument.map r.arguments).getD []
  -- a plain address becomes a pattern that finds it anywhere
  if expectation = .haveUrl then ((plainLiteral? args).map urlPattern).getD args else args

/-- A check as a matcher call, if it can be said so. -/
def playwrightCheck (r : Route) (a : Assertion) (expectation : Expectation) : Option Text := do
  let matcher ← expectation.name? .playwright
  let negation : Text := if a.negated then ".not" else ""
  let call := ")" ++ negation ++ "." ++ matcher ++ "(" ++ r.matcherArguments a expectation ++ ");"
  match a.subject with
  | .page => some ("await expect(page" ++ call)
  | .element queries => some ("await expect(" ++ r.playwrightLocator queries ++ call)
  | .value expr => some ("expect(" ++ expr ++ call)

def check (r : Route) (a : Assertion) (expectation : Expectation) : Option Text :=
  match r.target with
  | .cypress => r.cypressCheck a expectation
  | .playwright => r.playwrightCheck a expectation
  | .testRail => some ("step(" ++ r.style.literal (verifyTitle a expectation) ++ ");")

def verify (r : Route) (level : Nat) (a : Assertion) : Draft :=
  match a.expectation with
  | .unrecognized verb => unmapped "assertion" verb ++ r.fallback level a.source
  | .known expectation =>
    match r.check a expectation with
    | some code => r.line level code
    | none => r.noEquivalent (expectation.phrase a.negated) ++ r.fallback level a.source

end Route

end Parlance
