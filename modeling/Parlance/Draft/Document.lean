import Parlance.Document.Reader
import Parlance.Draft.Step

/-!
Writing documents and loose statements in the target vocabulary.
-/

namespace Parlance.Route

def headerLine (r : Route) : Text :=
  match r.target with
  | .cypress => "/// <reference types=\"cypress\" />"
  | .playwright =>
    "import \x7b test, expect \x7d from " ++ r.style.literal "@playwright/test" ++ ";"
  | .testRail =>
    "const \x7b suite, test_case, step \x7d = require(" ++ r.style.literal "@testrail/api" ++ ");"

def suiteHead : Framework → Text
  | .cypress => "describe("
  | .playwright => "test.describe("
  | .testRail => "suite("

def testHead : Framework → Text
  | .cypress => "it("
  | .playwright => "test("
  | .testRail => "test_case("

def testCallback : Framework → Text
  | .playwright => "async (\x7b page \x7d) => \x7b"
  | .cypress | .testRail => "() => \x7b"

def hookHead : Framework → HookKind → Text
  | .cypress, .beforeAll => "before(() => \x7b"
  | .cypress, .afterAll => "after(() => \x7b"
  | .cypress, .beforeEach => "beforeEach(() => \x7b"
  | .cypress, .afterEach => "afterEach(() => \x7b"
  | .playwright, .beforeAll => "test.beforeAll(async () => \x7b"
  | .playwright, .afterAll => "test.afterAll(async () => \x7b"
  | .playwright, .beforeEach => "test.beforeEach(async (\x7b page \x7d) => \x7b"
  | .playwright, .afterEach => "test.afterEach(async (\x7b page \x7d) => \x7b"
  | .testRail, .beforeAll => "beforeAll(() => \x7b"
  | .testRail, .afterAll => "afterAll(() => \x7b"
  | .testRail, .beforeEach => "beforeEach(() => \x7b"
  | .testRail, .afterEach => "afterEach(() => \x7b"

/-- The advisory for page calls in a hook that has no page. -/
def noPageAdvice : Draft :=
  .advice
    "Playwright beforeAll/afterAll hooks have no page fixture; review converted hook bodies"

def hook (r : Route) (level : Nat) (kind : HookKind) (body : Text) : Draft :=
  let steps := Step.ofBody r.source body
  -- a hook that runs once is not handed the page
  let lacksPage := r.target = .playwright && kind.runsOnce && steps.any Step.usesPage
  r.line level (hookHead r.target kind) ++ (if lacksPage then noPageAdvice else {}) ++
    r.steps (level + 1) steps ++ r.closeBlock level

def rawCode? : Step → Option Text
  | .raw code => some code
  | .chain _ | .verify _ => none

/-- Writes the body of a test as titled steps. -/
def titledBody (r : Route) (level : Nat) (test : TestCase) : Draft :=
  -- what the test does comes first, then one step for each recorded check
  let actions := (Step.ofBody r.source test.body).filter fun s => s.assertion?.isNone
  let kept := actions.filterMap rawCode?
  r.steps level actions ++
    -- a check whose statement has been kept as a whole is not written again
    .concat ((test.assertions.filter fun a => !kept.contains a.source).map (r.verify level))

def test (r : Route) (level : Nat) (test : TestCase) : Draft :=
  r.line level (testHead r.target ++ r.style.literal test.title ++ ", " ++ testCallback r.target) ++
    (if r.target.isStepBased then r.titledBody (level + 1) test
      else r.steps (level + 1) (Step.ofBody r.source test.body)) ++
    r.closeBlock level

/-- The advisory that a call which looks like a declaration was kept. -/
def undeclaredAdvice (code : Text) : Draft :=
  .advice ("Unrecognized declaration passed through unchanged: " ++ Text.firstLine code)

/-- Writes a statement from between the declarations. -/
def keptStatement (r : Route) (level : Nat) (code : Text) : Draft :=
  (if isComment code then {}
    else if Slot.candidate.occursIn r.source code then undeclaredAdvice code
    else if Slot.command.occursIn r.source code then keptAdvice code
    else {}) ++
    r.verbatim level code

def keptStatements (r : Route) (level : Nat) (statements : List Text) : Draft :=
  .concat (statements.map (r.keptStatement level))

def hooks (r : Route) (level : Nat) (hooks : Hooks) : List Draft :=
  HookKind.all.flatMap fun kind => (hooks.get kind).map (r.hook level kind)

mutual

/-- Writes a suite: kept statements, hooks, tests and inner suites, with empty lines between. -/
def suite (r : Route) (level : Nat) : Suite → Draft
  | ⟨title, tests, hooks, suites, passthrough⟩ =>
    r.line level (suiteHead r.target ++ r.style.literal title ++ ", () => \x7b") ++
      .separated
        ((if passthrough.isEmpty then [] else [r.keptStatements (level + 1) passthrough]) ++
          r.hooks (level + 1) hooks ++ tests.map (r.test (level + 1)) ++
          r.suites (level + 1) suites) ++
      r.closeBlock level

def suites (r : Route) (level : Nat) : List Suite → List Draft
  | [] => []
  | s :: rest => r.suite level s :: r.suites level rest

end

/-- The header with an empty line after it, if the style asks for one. -/
def header (r : Route) : Draft :=
  if r.style.header then r.line 0 r.headerLine ++ .blankLine else {}

/-- Writes all of a document but the header. -/
def declarations (r : Route) (d : Document) : Draft :=
  -- every part has an empty line after it
  Draft.concat
    (((if d.passthrough.isEmpty then [] else [r.keptStatements 0 d.passthrough]) ++
      r.hooks 0 d.hooks ++ d.tests.map (r.test 0) ++ r.suites 0 d.suites).map (· ++ Draft.blankLine))

def document (r : Route) (d : Document) : Draft := r.header ++ r.declarations d

/-- Writes loose statements, without header or wrapping. -/
def snippet (r : Route) (code : Text) : Draft := r.steps 0 (Step.ofBody r.source code)

end Parlance.Route
