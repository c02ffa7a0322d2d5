import Parlance.Framework

/-!
Advisories: what someone should look at after a conversion. Each pair of vocabularies has a fixed
table of words in the source that call for one.
-/

namespace Parlance

/-- A message, and the texts any of which calls for it. -/
structure Advisory where
  triggers : List Text
  message : Text
deriving DecidableEq, Repr

namespace Advisory

/-- The advisories of an ordered pair, in the order in which they are given. -/
def table : (source target : Framework) → List Advisory
  | .cypress, .playwright =>
    [⟨["cy.intercept("],
        "Cypress intercept commands need manual conversion to Playwright route.fulfill()"⟩,
      ⟨["cy.wait("],
        "Consider replacing cy.wait() with more specific Playwright waitFor conditions"⟩,
      ⟨["cy.fixture("],
        "Fixture files need manual conversion to Playwright fixtures or JSON imports"⟩,
      ⟨["cy.session("], "Session caching needs manual conversion to Playwright storageState"⟩]
  | .cypress, .testRail =>
    [⟨["cy.intercept("],
        "Network interception commands cannot be directly converted to TestRail steps"⟩,
      ⟨["cy.wait("], "Wait commands will need manual review in TestRail steps"⟩,
      ⟨["cy.fixture("], "Fixture usage will need to be handled differently in TestRail"⟩]
  | .playwright, .cypress =>
    [⟨["route.fulfill", "page.route("],
        "Playwright route.fulfill() needs manual conversion to cy.intercept()"⟩,
      ⟨["waitForLoadState"],
        "Consider replacing waitForLoadState with appropriate Cypress commands"⟩,
      ⟨["context."], "Browser context management needs manual conversion for Cypress"⟩,
      ⟨["expect("], "Some assertions might need manual adjustment for Cypress syntax"⟩]
  | .playwright, .testRail =>
    [⟨["route.fulfill", "page.route("],
        "Network interception commands cannot be directly converted to TestRail steps"⟩,
      ⟨["waitForLoadState", "waitForTimeout", "waitForSelector"],
        "Wait commands will need manual review in TestRail steps"⟩,
      ⟨["storageState"],
        "Storage state handling will need to be managed differently in TestRail"⟩]
  | .testRail, .cypress =>
    [⟨["step("], "Some TestRail steps may require manual adjustment for Cypress syntax"⟩]
  | .testRail, .playwright =>
    [⟨["step("], "Some TestRail steps may require manual adjustment for Playwright syntax"⟩,
      ⟨["Wait for", "Navigate to"],
        "Consider adding explicit waitFor statements for better reliability"⟩]
  | .cypress, .cypress | .playwright, .playwright | .testRail, .testRail => []

def appliesTo (a : Advisory) (source : Text) : Bool :=
  a.triggers.any fun trigger => Text.holds trigger source

def messages (source target : Framework) (t : Text) : List Text :=
  ((table source target).filter fun a => a.appliesTo t).map Advisory.message

/-- Adds a message, unless it is there already. -/
def add (messages : List Text) (message : Text) : List Text :=
  if messages.contains message then messages else messages ++ [message]

def merge (messages extra : List Text) : List Text := extra.foldl add messages

end Advisory

end Parlance
