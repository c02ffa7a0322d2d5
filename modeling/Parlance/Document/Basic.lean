import Parlance.Document.Hooks
import Parlance.Step.Basic

/-!
The tree of suites, tests and hooks of a source.
-/

namespace Parlance

structure TestCase where
  title : Text
  body : Text
  assertions : List Assertion
deriving DecidableEq, Repr

/-- A titled group of tests, hooks and further suites. -/
structure Suite where
  title : Text
  tests : List TestCase
  hooks : Hooks
  suites : List Suite
  /-- The statements between the declarations. -/
  passthrough : List Text
deriving Repr

mutual

/-- The number of tests in a suite, at any depth. -/
def Suite.testCount : Suite → Nat
  | ⟨_, tests, _, suites, _⟩ => tests.length + Suite.totalCount suites

def Suite.totalCount : List Suite → Nat
  | [] => 0
  | suite :: rest => suite.testCount + Suite.totalCount rest

end

/-- What a scope holds: the declarations and the statements between them, and the titles of the
blocks that nothing closes. A source is its outermost scope. -/
structure Document where
  suites : List Suite := []
  tests : List TestCase := []
  hooks : Hooks := {}
  passthrough : List Text := []
  unterminated : List Text := []
deriving Repr

namespace Document

/-- Two scopes one after the other. -/
protected def append (a b : Document) : Document :=
  ⟨a.suites ++ b.suites, a.tests ++ b.tests, a.hooks ++ b.hooks, a.passthrough ++ b.passthrough,
    a.unterminated ++ b.unterminated⟩

instance : Append Document := ⟨Document.append⟩

def isEmpty (d : Document) : Bool := d.suites.isEmpty && d.tests.isEmpty && d.hooks.isEmpty

def toSuite (d : Document) (title : Text) : Suite :=
  ⟨title, d.tests, d.hooks, d.suites, d.passthrough⟩

end Document

end Parlance
