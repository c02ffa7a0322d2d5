import Parlance.Framework
import Parlance.Pattern.Search

/-!
Telling the vocabulary of a source by its signatures.
-/

namespace Parlance

open Pattern

def calls (name : Text) : Pattern := wordEdge ++ word name ++ blanks ++ one '('

/-- The patterns that give a vocabulary away. -/
def Framework.signatures : Framework → List Pattern
  | .cypress => [wordEdge ++ word "cy."]
  | .playwright =>
    [calls "test", calls "test.describe",
      wordEdge ++ word "page." ++ char fun c => c.isAlpha || c = '_' || c = '$',
      word "@playwright/test"]
  | .testRail => [calls "test_case", calls "testCase", calls "suite", word "@testrail"]

/-- The first vocabulary one of whose signatures occurs in a source. -/
def detectFramework (source : Text) : Option Framework :=
  Framework.all.find? fun f => f.signatures.any fun signature => signature.occursIn source

end Parlance
