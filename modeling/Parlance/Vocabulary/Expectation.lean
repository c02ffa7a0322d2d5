import Parlance.Framework
import Parlance.Vocabulary.Lookup

/-!
The checks that the vocabularies share, with their spelling in each, and the reading of a check
from the words of a step title.
-/

namespace Parlance

/-- A check that a test can make. -/
inductive Expectation where
  | visible
  | hidden
  | exist
  | haveText
  | containText
  | haveValue
  | checked
  | disabled
  | enabled
  | focused
  | empty
  | haveAttribute
  | haveClass
  | haveCss
  | haveCount
  | haveUrl
  | haveTitle
  | equal
  | truthy
deriving DecidableEq, Repr

namespace Expectation

/-- All checks, in the order in which names are looked up. -/
def all : List Expectation :=
  [.visible, .hidden, .exist, .haveText, .containText, .haveValue, .checked, .disabled, .enabled,
    .focused, .empty, .haveAttribute, .haveClass, .haveCss, .haveCount, .haveUrl, .haveTitle,
    .equal, .truthy]

/-- The chainers that stand for a check; the first one is written. -/
def cypressNames : Expectation → List Text
  | .visible => ["be.visible"]
  | .hidden => ["be.hidden"]
  | .exist => ["exist"]
  | .haveText => ["have.text"]
  | .containText => ["contain", "contain.text", "include.text", "contains"]
  | .haveValue => ["have.value"]
  | .checked => ["be.checked"]
  | .disabled => ["be.disabled"]
  | .enabled => ["be.enabled"]
  | .focused => ["have.focus", "be.focused"]
  | .empty => ["be.empty"]
  | .haveAttribute => ["have.attr"]
  | .haveClass => ["have.class"]
  | .haveCss => ["have.css"]
  | .haveCount => ["have.length"]
  | .haveUrl => ["include", "match"]
  | .haveTitle => ["eq"]
  | .equal => ["eq", "equal", "deep.equal"]
  | .truthy => ["be.true", "be.ok"]

def playwrightNames : Expectation → List Text
  | .visible => ["toBeVisible"]
  | .hidden => ["toBeHidden"]
  | .exist => ["toBeAttached"]
  | .haveText => ["toHaveText"]
  | .containText => ["toContainText"]
  | .haveValue => ["toHaveValue"]
  | .checked => ["toBeChecked"]
  | .disabled => ["toBeDisabled"]
  | .enabled => ["toBeEnabled"]
  | .focused => ["toBeFocused"]
  | .empty => ["toBeEmpty"]
  | .haveAttribute => ["toHaveAttribute"]
  | .haveClass => ["toHaveClass"]
  | .haveCss => ["toHaveCSS"]
  | .haveCount => ["toHaveCount"]
  | .haveUrl => ["toHaveURL"]
  | .haveTitle => ["toHaveTitle"]
  | .equal => ["toBe", "toEqual"]
  | .truthy => ["toBeTruthy"]

/-- The words with which a step title says that a check holds. -/
def positive : Expectation → Text
  | .visible => "is visible"
  | .hidden => "is hidden"
  | .exist => "exists"
  | .haveText => "has text"
  | .containText => "contains text"
  | .haveValue => "has value"
  | .checked => "is checked"
  | .disabled => "is disabled"
  | .enabled => "is enabled"
  | .focused => "is focused"
  | .empty => "is empty"
  | .haveAttribute => "has attribute"
  | .haveClass => "has class"
  | .haveCss => "has CSS"
  | .haveCount => "has count"
  | .haveUrl => "has URL"
  | .haveTitle => "has title"
  | .equal => "equals"
  | .truthy => "is truthy"

def negative : Expectation → Text
  | .visible => "is not visible"
  | .hidden => "is not hidden"
  | .exist => "does not exist"
  | .haveText => "does not have text"
  | .containText => "does not contain text"
  | .haveValue => "does not have value"
  | .checked => "is not checked"
  | .disabled => "is not disabled"
  | .enabled => "is not enabled"
  | .focused => "is not focused"
  | .empty => "is not empty"
  | .haveAttribute => "does not have attribute"
  | .haveClass => "does not have class"
  | .haveCss => "does not have CSS"
  | .haveCount => "does not have count"
  | .haveUrl => "does not have URL"
  | .haveTitle => "does not have title"
  | .equal => "does not equal"
  | .truthy => "is not truthy"

def phrase (e : Expectation) (negated : Bool) : Text := if negated then e.negative else e.positive

def takesArgument : Expectation → Bool
  | .haveText | .containText | .haveValue | .haveAttribute | .haveClass | .haveCss | .haveCount
  | .haveUrl | .haveTitle | .equal => true
  | .visible | .hidden | .exist | .checked | .disabled | .enabled | .focused | .empty
  | .truthy => false

/-- Whether a check is about the page and told by its subject instead of its name. -/
def isAboutPage (e : Expectation) : Bool := e = .haveUrl || e = .haveTitle

def names : Framework → Expectation → List Text
  | .cypress, e => e.cypressNames
  | .playwright, e => e.playwrightNames
  | .testRail, e => [e.positive]

def name? (e : Expectation) (f : Framework) : Option Text := (names f e).head?

/-- The check that a name stands for in a vocabulary. -/
def lookup (f : Framework) (name : Text) : Lookup Expectation :=
  .ofFound name (all.find? fun e =>
    -- chained names never stand for a check of the page, which is told by its subject
    (names f e).contains name && !(f = .cypress && e.isAboutPage))

/-! ## Reading a check from a step title -/

/-- Whether the end of a text lies inside double quotes, and whether a backslash there takes away
the meaning of the next character. -/
structure Quoting where
  isOpen : Bool := false
  escaped : Bool := false
deriving DecidableEq, Repr

def Quoting.next (q : Quoting) (c : Char) : Quoting :=
  if q.escaped then ⟨q.isOpen, false⟩
  else if c = '\\' then ⟨q.isOpen, true⟩
  else if c = '"' then ⟨!q.isOpen, false⟩
  else q

/-- A check read from a title: what it is about, the check, whether it is negated, and what it
compares with, which may be empty. -/
structure Phrase where
  subject : Text
  expectation : Expectation
  negated : Bool
  argument : Text
deriving DecidableEq, Repr

/-- The words of a check at the beginning of a text, ended by a space or the end of the text, and
what stands after them. -/
def wordsAt? (t : Text) (expectation : Expectation) (negated : Bool) :
    Option (Expectation × Bool × Text) :=
  match Text.after? (expectation.phrase negated) t with
  | some after => if after.head?.all (· = ' ') then some (expectation, negated, after) else none
  | none => none

/-- The longest words of a check at the beginning of a text: what they leave is the shortest. -/
def longestWordsAt? (t : Text) : Option (Expectation × Bool × Text) :=
  let found := all.flatMap fun e => [false, true].filterMap (wordsAt? t e)
  found.foldl
    (fun best p =>
      match best with
      | none => some p
      -- the longest words leave the shortest rest
      | some b => if p.2.2.length < b.2.2.length then some p else some b)
    none

/-- Splits a text at the first words of a check that stand on their own: between spaces or the
ends, and outside double quotes. What has been read is in `seen`, last character first. -/
def splitPhraseFrom (quoting : Quoting) (seen : Text) : Text → Option Phrase
  | [] => none
  | c :: rest =>
    -- words inside double quotes belong to a value
    let found :=
      if seen.head?.all (· = ' ') && !quoting.isOpen then longestWordsAt? (c :: rest) else none
    match found with
    | some (expectation, negated, after) =>
      some ⟨Text.trim seen.reverse, expectation, negated, Text.trim after⟩
    | none => splitPhraseFrom (quoting.next c) (c :: seen) rest

/-- Splits a text at the first words of a check that stand on their own. -/
def splitPhrase (t : Text) : Option Phrase := splitPhraseFrom {} [] t

end Expectation

end Parlance
