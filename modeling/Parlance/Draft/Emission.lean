import Parlance.Draft.Document

/-!
Writing in place: documents and loose statements are put, one after another, at the end of what has
been written so far. An advisory is kept unless it has been raised before, by whatever was written
then.
-/

namespace Parlance

/-- Something that is written at the end of a draft. -/
abbrev Emission := StateM Draft Unit

namespace Emission

/-- The draft after something has been written. -/
def after (m : Emission) (d : Draft) : Draft := (m.run d).2

def put (t : Text) : Emission := modify fun d => { d with text := d.text ++ t }

def putBreak : Emission := put ['\n']

def raise (message : Text) : Emission :=
  modify fun d => { d with advisories := Advisory.add d.advisories message }

/-- Puts an empty line before all parts of a scope but the first. -/
def separate (isFirst : Bool) : Emission := if isFirst then pure () else putBreak

/-- Writes the parts of a scope, with empty lines between. -/
def parts (isFirst : Bool) : List Emission → Emission
  | [] => pure ()
  | part :: rest => do
    separate isFirst
    part
    parts false rest

end Emission

namespace Route

open Emission

/-! ## Lines -/

def emitLine (r : Route) (level : Nat) (code : Text) : Emission :=
  put (r.style.indentation level ++ code ++ ['\n'])

def emitBlock (r : Route) (level : Nat) (code : Text) : Emission :=
  match Text.lines code with
  | [] => r.emitLine level []
  | first :: rest => do
    r.emitLine level (Text.trim first)
    rest.forM fun l =>
      if Text.allBlank l then putBreak
      else r.emitLine level (Text.trimEnd (stripMargin (sharedMargin rest) l))

def emitVerbatim (r : Route) (level : Nat) (code : Text) : Emission :=
  if isComment code || code.getLast?.any fun c => c = '\x7d' || c = ';' then r.emitBlock level code
  else r.emitBlock level (code ++ [';'])

def emitCommentStep (r : Route) (level : Nat) (title comment : Text) : Emission := do
  r.emitLine level ("step(" ++ r.style.literal title ++ ", () => \x7b")
  r.emitLine (level + 1) ("// " ++ Text.oneLine comment)
  r.emitLine level "\x7d);"

def emitFallback (r : Route) (level : Nat) (call : Text) : Emission :=
  match r.target with
  | .testRail => r.emitCommentStep level performAction call
  | .cypress | .playwright =>
    r.emitLine level ("// " ++ performAction ++ ": " ++ Text.oneLine call)

def raiseNoEquivalent (r : Route) (name : Text) : Emission :=
  raise ("No " ++ r.target.name ++ " equivalent for '" ++ name ++ "'; emitted as a '" ++
    performAction ++ "' comment")

def raiseUnmapped (thing name : Text) : Emission :=
  raise ("Unmapped " ++ thing ++ " '" ++ name ++ "' was emitted as a '" ++ performAction ++
    "' comment")

/-! ## Steps -/

def emitVerify (r : Route) (level : Nat) (a : Assertion) : Emission :=
  match a.expectation with
  | .unrecognized verb => do
    raiseUnmapped "assertion" verb
    r.emitFallback level a.source
  | .known expectation =>
    match r.check a expectation with
    | some code => r.emitLine level code
    | none => do
      r.raiseNoEquivalent (expectation.phrase a.negated)
      r.emitFallback level a.source

def emitCommand (r : Route) (level : Nat) (queries : List Query) (command : Command) : Emission :=
  match command.action with
  | .unrecognized name => do
    raiseUnmapped "command" name
    r.emitFallback level (r.sourceCall queries (some command))
  | .known action =>
    if r.target.isStepBased then
      r.emitCommentStep level (actionTitle queries action (command.args.getD []))
        (r.sourceCall queries (some command))
    else
      match r.codeAction queries action command with
      | some code => r.emitLine level code
      | none => do
        r.raiseNoEquivalent command.name
        r.emitFallback level (r.sourceCall queries (some command))

def emitLocate (r : Route) (level : Nat) (queries : List Query) : Emission :=
  let call := r.sourceCall queries none
  match r.target with
  | .cypress =>
    match r.cypressLocator queries with
    | some locator => r.emitLine level (locator ++ ";")
    | none => do
      r.raiseNoEquivalent call
      r.emitFallback level call
  | .playwright => r.emitLine level ("await " ++ r.playwrightLocator queries ++ ".waitFor();")
  | .testRail => r.emitCommentStep level (Action.label .locate ++ " " ++ elementWords queries) call

/-- Writes the commands of a chain that is read from its start. `acted` tells whether a command has
been written, `queries` are those read so far. -/
def emitCommands (r : Route) (level : Nat) (acted : Bool) (queries : List Query) :
    List Command → Emission
  -- queries that a command follows are written with it
  | [] => if !acted && !queries.isEmpty then r.emitLocate level queries else pure ()
  | c :: rest =>
    match c.query? with
    | some query => r.emitCommands level acted (queries ++ [query]) rest
    | none => do
      r.emitCommand level queries c
      r.emitCommands level true queries rest

def raiseKept (r : Route) (code : Text) : Emission :=
  if !isComment code && Slot.command.occursIn r.source code then
    raise ("Statement passed through unchanged: " ++ Text.firstLine code)
  else pure ()

def emitRaw (r : Route) (level : Nat) (code : Text) : Emission := do
  r.raiseKept code
  if !isComment code && r.target.isStepBased then
    r.emitLine level ("step(" ++ r.style.literal performAction ++ ", () => \x7b")
    r.emitBlock (level + 1) code
    r.emitLine level "\x7d);"
  else
    r.emitVerbatim level code

def emitStep (r : Route) (level : Nat) : Step → Emission
  | .chain commands => r.emitCommands level false [] commands
  | .verify assertion => r.emitVerify level assertion
  | .raw code => r.emitRaw level code

/-! ## Documents -/

def raiseNoPage (r : Route) (kind : HookKind) (steps : List Step) : Emission :=
  if r.target = .playwright && kind.runsOnce && steps.any Step.usesPage then
    raise "Playwright beforeAll/afterAll hooks have no page fixture; review converted hook bodies"
  else pure ()

def emitHook (r : Route) (level : Nat) (kind : HookKind) (body : Text) : Emission := do
  r.emitLine level (hookHead r.target kind)
  r.raiseNoPage kind (Step.ofBody r.source body)
  (Step.ofBody r.source body).forM (r.emitStep (level + 1))
  r.emitLine level "\x7d);"

/-- Writes the body of a test as titled steps. -/
def emitTitledBody (r : Route) (level : Nat) (test : TestCase) : Emission := do
  let actions := (Step.ofBody r.source test.body).filter fun s => s.assertion?.isNone
  actions.forM (r.emitStep level)
  -- checks of statements that have been kept as a whole are not written again
  let kept := actions.filterMap rawCode?
  (test.assertions.filter fun a => !kept.contains a.source).forM (r.emitVerify level)

def emitBody (r : Route) (level : Nat) (test : TestCase) : Emission :=
  if r.target.isStepBased then r.emitTitledBody level test
  else (Step.ofBody r.source test.body).forM (r.emitStep level)

def emitTest (r : Route) (level : Nat) (test : TestCase) : Emission := do
  r.emitLine level
    (testHead r.target ++ r.style.literal test.title ++ ", " ++ testCallback r.target)
  r.emitBody (level + 1) test
  r.emitLine level "\x7d);"

def raiseUndeclared (r : Route) (code : Text) : Emission :=
  if !isComment code && Slot.candidate.occursIn r.source code then
    raise ("Unrecognized declaration passed through unchanged: " ++ Text.firstLine code)
  else r.raiseKept code

def emitKept (r : Route) (level : Nat) (statements : List Text) : Emission :=
  statements.forM fun code => do
    r.raiseUndeclared code
    r.emitVerbatim level code

def emitHooks (r : Route) (level : Nat) (hooks : Hooks) : List Emission :=
  HookKind.all.flatMap fun kind => (hooks.get kind).map (r.emitHook level kind)

mutual

/-- Writes a suite, with empty lines between its parts. -/
def emitSuite (r : Route) (level : Nat) : Suite → Emission
  | ⟨title, tests, hooks, suites, passthrough⟩ => do
    r.emitLine level (suiteHead r.target ++ r.style.literal title ++ ", () => \x7b")
    -- kept statements, hooks, tests and inner suites, in this order whatever the source has
    parts true
      ((if passthrough.isEmpty then [] else [r.emitKept (level + 1) passthrough]) ++
        r.emitHooks (level + 1) hooks ++ tests.map (r.emitTest (level + 1)) ++
        r.emitSuites (level + 1) suites)
    r.emitLine level "\x7d);"

def emitSuites (r : Route) (level : Nat) : List Suite → List Emission
  | [] => []
  | s :: rest => r.emitSuite level s :: r.emitSuites level rest

end

def emitHeader (r : Route) : Emission :=
  if r.style.header then do
    put (r.headerLine ++ ['\n'])
    putBreak
  else pure ()

/-- Writes a document: the header, kept statements, hooks, tests and suites, each with an empty line
after it. -/
def emitDocument (r : Route) (d : Document) : Emission := do
  r.emitHeader
  ((if d.passthrough.isEmpty then [] else [r.emitKept 0 d.passthrough]) ++ r.emitHooks 0 d.hooks ++
      d.tests.map (r.emitTest 0) ++ r.emitSuites 0 d.suites).forM fun part => do
    part
    putBreak

def emitSnippet (r : Route) (code : Text) : Emission :=
  (Step.ofBody r.source code).forM (r.emitStep 0)

inductive Piece where
  | document (d : Document)
  | snippet (code : Text)

def emit (r : Route) : Piece → Emission
  | .document d => r.emitDocument d
  | .snippet code => r.emitSnippet code

end Route

end Parlance
