import Parlance.Framework
import Parlance.Vocabulary.Lookup

/-!
The commands that the vocabularies share, with their spelling in each.
-/

namespace Parlance

inductive ActionKind where
  | query
  | element
  | page
deriving DecidableEq, Repr

/-- A command that at least one vocabulary has. -/
inductive Action where
  | navigate
  | locate
  | locateText
  | locateTestId
  | locateRole
  | locateLabel
  | click
  | doubleClick
  | rightClick
  | fill
  | clear
  | check
  | uncheck
  | select
  | focus
  | blur
  | hover
  | press
  | scrollIntoView
  | reload
  | wait
  | waitForLoad
  | screenshot
  | intercept
  | url
  | title
  | clearCookies
deriving DecidableEq, Repr

namespace Action

/-- All commands, in the order in which names are looked up. -/
def all : List Action :=
  [.navigate, .locate, .locateText, .locateTestId, .locateRole, .locateLabel, .click, .doubleClick,
    .rightClick, .fill, .clear, .check, .uncheck, .select, .focus, .blur, .hover, .press,
    .scrollIntoView, .reload, .wait, .waitForLoad, .screenshot, .intercept, .url, .title,
    .clearCookies]

def kind : Action → ActionKind
  | .locate | .locateText | .locateTestId | .locateRole | .locateLabel => .query
  | .navigate | .reload | .wait | .waitForLoad | .screenshot | .intercept | .url | .title
  | .clearCookies => .page
  | .click | .doubleClick | .rightClick | .fill | .clear | .check | .uncheck | .select | .focus
  | .blur | .hover | .press | .scrollIntoView => .element

def isQuery (a : Action) : Bool := a.kind = .query

/-- The names of a command as a chained call; the first one is written. -/
def cypressNames : Action → List Text
  | .navigate => ["visit"]
  | .locate => ["get", "find"]
  | .locateText => ["contains"]
  | .click => ["click"]
  | .doubleClick => ["dblclick"]
  | .rightClick => ["rightclick"]
  | .fill => ["type"]
  | .clear => ["clear"]
  | .check => ["check"]
  | .uncheck => ["uncheck"]
  | .select => ["select"]
  | .focus => ["focus"]
  | .blur => ["blur"]
  | .scrollIntoView => ["scrollIntoView"]
  | .reload => ["reload"]
  | .wait => ["wait"]
  | .screenshot => ["screenshot"]
  | .intercept => ["intercept"]
  | .url => ["url"]
  | .title => ["title"]
  | .clearCookies => ["clearCookies"]
  | .locateTestId | .locateRole | .locateLabel | .hover | .press | .waitForLoad => []

def playwrightNames : Action → List Text
  | .navigate => ["goto"]
  | .locate => ["locator", "$"]
  | .locateText => ["getByText"]
  | .locateTestId => ["getByTestId"]
  | .locateRole => ["getByRole"]
  | .locateLabel => ["getByLabel"]
  | .click => ["click"]
  | .doubleClick => ["dblclick"]
  | .fill => ["fill", "type", "pressSequentially"]
  | .clear => ["clear"]
  | .check => ["check"]
  | .uncheck => ["uncheck"]
  | .select => ["selectOption"]
  | .focus => ["focus"]
  | .blur => ["blur"]
  | .hover => ["hover"]
  | .press => ["press"]
  | .scrollIntoView => ["scrollIntoViewIfNeeded"]
  | .reload => ["reload"]
  | .wait => ["waitForTimeout"]
  | .waitForLoad => ["waitForLoadState"]
  | .screenshot => ["screenshot"]
  | .intercept => ["route"]
  | .url => ["url"]
  | .title => ["title"]
  | .rightClick | .clearCookies => []

/-- The words with which a step title names a command. A query other than `locate` has none: it is
told by its target. -/
def label? : Action → Option Text
  | .navigate => some "Navigate to"
  | .locate => some "Locate"
  | .click => some "Click"
  | .doubleClick => some "Double-click"
  | .rightClick => some "Right-click"
  | .fill => some "Enter text into"
  | .clear => some "Clear"
  | .check => some "Check"
  | .uncheck => some "Uncheck"
  | .select => some "Select option in"
  | .focus => some "Focus"
  | .blur => some "Blur"
  | .hover => some "Hover over"
  | .press => some "Press key on"
  | .scrollIntoView => some "Scroll to"
  | .reload => some "Reload page"
  | .wait => some "Wait for"
  | .waitForLoad => some "Wait for load state"
  | .screenshot => some "Take screenshot"
  | .intercept => some "Intercept network request"
  | .url => some "Read URL"
  | .title => some "Read title"
  | .clearCookies => some "Clear cookies"
  | .locateText | .locateTestId | .locateRole | .locateLabel => none

def label (a : Action) : Text := a.label?.getD "Locate"

/-- The word before the target of a query in a step title; a plain target has none. -/
def targetWord? : Action → Option Text
  | .locateText => some "text"
  | .locateTestId => some "test ID"
  | .locateRole => some "role"
  | .locateLabel => some "label"
  | _ => none

def names : Framework → Action → List Text
  | .cypress, a => a.cypressNames
  | .playwright, a => a.playwrightNames
  | .testRail, a => a.label?.toList

def name? (a : Action) (f : Framework) : Option Text := (names f a).head?

/-- The command that a name stands for in a vocabulary. -/
def lookup (f : Framework) (name : Text) : Lookup Action :=
  .ofFound name (all.find? fun a => (names f a).contains name)

/-- The longest of some words; of words of the same length the last. -/
def longest (found : List (Action × Text)) : Option (Action × Text) :=
  found.foldl
    (fun best candidate =>
      match best with
      | none => some candidate
      -- where all words begin one title, those of the same length are the same
      | some b => if Text.size b.2 ≤ Text.size candidate.2 then some candidate else some b)
    none

/-- The command whose words begin a step title, the longest ones if several do, and what follows
them. The words end with the title or before a blank. -/
def ofTitle? (title : Text) : Option (Action × Text) :=
  let fits (label : Text) : Bool :=
    (Text.after? label title).any fun rest => rest.head?.all isBlank
  (longest (all.filterMap fun a => (a.label?.filter fits).map (a, ·))).map
    fun (a, label) => (a, Text.trim (title.drop label.length))

/-- The query whose word begins a target, and the rest of the target. The word is followed by a
space and by more than blanks. -/
def ofTarget? (target : Text) : Option (Action × Text) :=
  let fits (word : Text) : Bool :=
    (Text.after? word target).any fun rest => Text.firstIs (· = ' ') rest && !Text.allBlank rest
  (longest (all.filterMap fun a => (a.targetWord?.filter fits).map (a, ·))).map
    fun (a, word) => (a, Text.trim (target.drop word.length))

end Action

end Parlance
