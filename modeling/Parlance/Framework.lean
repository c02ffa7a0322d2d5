import Parlance.Text.Blank

/-!
The three vocabularies in which test suites are written.
-/

namespace Parlance

/-- A vocabulary for browser tests: chained commands inside `describe` and `it`, awaited locator calls
inside `test.describe` and `test`, or titled steps inside `suite` and `test_case`. -/
inductive Framework where
  | cypress
  | playwright
  | testRail
deriving DecidableEq, Repr

namespace Framework

/-- All vocabularies, in the order in which a source is tested for them. -/
def all : List Framework := [.cypress, .playwright, .testRail]

def name : Framework → Text
  | .cypress => "cypress"
  | .playwright => "playwright"
  | .testRail => "testrail"

def shortName : Framework → Text
  | .cypress => "cy"
  | .playwright => "pw"
  | .testRail => "tr"

/-- Whether a vocabulary writes what a test does and checks as titled steps. -/
def isStepBased : Framework → Bool
  | .testRail => true
  | _ => false

/-- The vocabulary with the given name, spelled exactly. -/
def ofName? (name : Text) : Option Framework := all.find? fun f => f.name = name

def typedName (t : Text) : Text := Text.lower (Text.trim t)

/-- The vocabulary someone named, in full or short, in any case and with blanks around. -/
def ofTyped? (t : Text) : Option Framework :=
  all.find? fun f => f.name = typedName t || f.shortName = typedName t

/-- All ordered pairs of two different vocabularies. -/
def pairs : List (Framework × Framework) :=
  all.flatMap fun source => (all.filter (· ≠ source)).map fun target => (source, target)

end Framework

end Parlance
