import Parlance.Source.Chain
import Parlance.Step.Title

/-!
Reading titled steps and plain asserts as steps.
-/

namespace Parlance

open Source (Link)

/-- What stands in the body of a step without a title of its own: a comment that names an unknown
call, or code that was kept. -/
def readPerformed (callback : Text) : Option Step :=
  match callback.dropWhile (· ≠ '\x7b') with
  | [] => none
  | _ :: rest =>
    let body := (Source.Block.read rest).body
    match Source.splitStatements body with
    | [] => none
    | first :: _ =>
      match Text.after? "//" first with
      | some comment =>
        match Source.readChain (Text.trim comment) with
        | some [link] =>
          some (.chain [⟨.unrecognized link.name, link.name, link.args.map Text.trim⟩])
        | _ => none
      | none => some (.raw (Text.trim body))

def readVerifyTitle (source title : Text) : Option Assertion := do
  let rest ← Text.after? verifyWord title
  if Text.firstIs (· = ' ') rest then readVerification source (Text.trim rest) else none

/-- The step with a title and perhaps a callback. -/
def readStep (source title : Text) (callback : Option Text) : Step :=
  match readVerifyTitle source title with
  | some assertion => .verify assertion
  | none =>
    match (callback.filter fun _ => title = performAction).bind readPerformed with
    | some step => step
    -- a title that describes nothing known is the name of an unknown command
    | none => .chain ((readActionTitle title).getD [⟨.unrecognized title, title, none⟩])

/-- The names of asserts, with the check that each makes and whether it is negated. -/
def assertTable : List (Text × Expectation × Bool) :=
  [("equal", .equal, false), ("strictEqual", .equal, false), ("deepEqual", .equal, false),
    ("deepStrictEqual", .equal, false), ("notEqual", .equal, true),
    ("notStrictEqual", .equal, true), ("notDeepEqual", .equal, true),
    ("notDeepStrictEqual", .equal, true), ("ok", .truthy, false), ("isTrue", .truthy, false),
    ("notOk", .truthy, true), ("isFalse", .truthy, true)]

/-- The check that the name of an assert makes, and whether it is negated. -/
def assertCheck (verb : Text) : Lookup Expectation × Bool :=
  match assertTable.lookup verb with
  | some (expectation, negated) => (.known expectation, negated)
  | none => (.unrecognized verb, false)

/-- The check of an assert: its first argument is the subject. -/
def readAssert (source verb args : Text) : Option Assertion :=
  match Source.splitArguments args with
  | [] => none
  | actual :: rest =>
    let (expectation, negated) := assertCheck verb
    let argument :=
      match expectation with
      | .known .equal => rest.head?
      -- a check for truth compares with nothing; what follows is its message
      | .known _ => none
      | .unrecognized _ => joinArguments? rest
    some ⟨.value actual, expectation, negated, argument, source⟩

def readTestRail (statement : Text) : Option (List Step) := do
  let links ← Source.readChain statement
  match links with
  | [link] =>
    if link.name = "step".toList then
      match Source.splitArguments (← link.args) with
      | [] => none
      | first :: rest => some [readStep statement (← Source.unquote first) rest.head?]
    else
      none
  | [root, verb] =>
    if root.name = "assert".toList && root.args.isNone then
      (readAssert statement verb.name (← verb.args)).map fun assertion => [.verify assertion]
    else
      none
  | _ => none

end Parlance
