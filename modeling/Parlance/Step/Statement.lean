import Parlance.Declaration.Basic
import Parlance.Step.Cypress
import Parlance.Step.Playwright
import Parlance.Step.TestRail

/-!
The steps of statements and bodies in each vocabulary, and the checks recorded for a test.
-/

namespace Parlance

def readShape : Framework → Text → Option (List Step)
  | .cypress => readCypress
  | .playwright => readPlaywright
  | .testRail => readTestRail

namespace Step

/-- The steps of one statement. A comment, a statement of another shape and one that hands a
callback to an unknown command are kept as they are. -/
def ofStatement (f : Framework) (statement : Text) : List Step :=
  let statement := Text.trim statement
  if isComment statement then [.raw statement]
  else
    match (readShape f statement).filter fun steps => !steps.any hasUnknownCallback with
    | some steps => steps
    | none => [.raw statement]

/-- The steps of all statements of a body. -/
def ofBody (f : Framework) (body : Text) : List Step :=
  (Source.splitStatements body).flatMap (ofStatement f)

end Step

namespace Assertion

/-- The checks that a statement makes, in order. -/
def ofStatement (f : Framework) (statement : Text) : List Assertion :=
  (Step.ofStatement f statement).filterMap Step.assertion?

/-- The record of a check whose shape is not understood. -/
def unread (f : Framework) (statement : Text) : Assertion :=
  let verb := (Declaration.findAt? f .assertion statement 0).bind Declaration.name
  ⟨.value statement, .unrecognized (verb.getD "expect"), false, none, statement⟩

/-- The checks recorded for a body: those of every statement in which an assertion occurs, or the
whole statement where they cannot be read. -/
def ofBody (f : Framework) (body : Text) : List Assertion :=
  ((Source.splitStatements body).filter (Slot.assertion.occursIn f)).flatMap fun statement =>
    match ofStatement f statement with
    | [] => [unread f statement]
    | found => found

end Assertion

end Parlance
