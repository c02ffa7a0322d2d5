import Parlance.Document.Hooks
import Parlance.Framework
import Parlance.Pattern.Search

/-!
The patterns by which each vocabulary announces its suites, tests, hooks, steps, assertions,
commands and import lines.
-/

namespace Parlance

/-- What a pattern announces. -/
inductive Slot where
  | suite
  | test
  | hook (kind : HookKind)
  | step
  | assertion
  | command
  /-- The import or reference line of the vocabulary itself. -/
  | preamble
  /-- Whatever has the look of a suite or test call, with any callback. -/
  | candidate
deriving DecidableEq, Repr

namespace Slot

open Pattern

/-- The slots that open a block of the document tree. -/
def declarations : List Slot := [.suite, .test] ++ HookKind.all.map .hook

/-! ## Parts of declarations -/

/-- The contents of a title between two quotes of one sort, without a bare quote. -/
def quotedTitle (quote : Char) : Pattern :=
  let plain := noneOf [quote, '\\']
  -- a backslash takes along a character of the same line
  let escaped := one '\\' ++ char (· ≠ '\n')
  one quote ++ keep .title (many (plain <|> escaped)) ++ one quote

/-- A title in any of the three quotes, after blanks. -/
def title : Pattern :=
  blanks ++ (quotedTitle '\x27' <|> quotedTitle '"' <|> quotedTitle '\x60')

def noParameters : Pattern := one '(' ++ blanks ++ one ')'

def maybeAsync : Pattern := optional (word "async" ++ blanks)

/-- A function without parameters up to the brace that opens its body. -/
def callback : Pattern :=
  blanks ++ maybeAsync ++
    (noParameters ++ blanks ++ word "=>" <|>
      word "function" ++ blanks ++ many (char isWord) ++ blanks ++ noParameters) ++
    blanks ++ one '\x7b'

/-- An arrow function with at most a list of fixtures for parameters, up to the brace that opens its
body. -/
def fixtureCallback : Pattern :=
  blanks ++ maybeAsync ++ one '(' ++ blanks ++
    optional (one '\x7b' ++ many (noneOf ['\x7d']) ++ one '\x7d') ++
    blanks ++ one ')' ++ blanks ++ word "=>" ++ blanks ++ one '\x7b'

/-- One of some names at the beginning of a word, with or without one of some modifiers. -/
def head (names modifiers : List Text) : Pattern :=
  wordEdge ++ words names ++
    if modifiers.isEmpty then empty else optional (words modifiers)

def titled (head callback : Pattern) : Pattern :=
  head ++ blanks ++ one '(' ++ title ++ blanks ++ one ',' ++ callback

def untitled (head callback : Pattern) : Pattern := head ++ blanks ++ one '(' ++ callback

/-- A call that opens with a title, with a variable for one, or with a callback. -/
def opening (head : Pattern) : Pattern :=
  head ++ blanks ++ one '(' ++ blanks ++
    (oneOf ['\x27', '"', '\x60', '('] <|> word "async" ++ wordEdge <|>
      word "function" ++ wordEdge <|>
      many1 (char fun c => isWord c || c = '$' || c = '.') ++ blanks ++ one ',')

/-- A call on the page object of a vocabulary; its name is kept. -/
def methodCall (root : Text) : Pattern :=
  wordEdge ++ word root ++ blanks ++ one '.' ++ blanks ++
    keep .name (many1 (char fun c => isWord c || c = '$')) ++ blanks ++ one '('

def stepTitle : Pattern := wordEdge ++ word "step" ++ blanks ++ one '(' ++ title

def onlySkip : List Text := [".only", ".skip"]

def quotedName (name : Text) : Pattern := oneOf ['\x27', '"'] ++ word name ++ oneOf ['\x27', '"']

/-! ## The vocabularies -/

def cypressPattern : Slot → Option Pattern
  | .suite => titled (head ["describe", "context"] onlySkip) callback
  | .test => titled (head ["it", "specify"] onlySkip) callback
  | .hook .beforeAll => untitled (head ["before"] []) callback
  | .hook .afterAll => untitled (head ["after"] []) callback
  | .hook .beforeEach => untitled (head ["beforeEach"] []) callback
  | .hook .afterEach => untitled (head ["afterEach"] []) callback
  | .step => none
  | .assertion =>
    (one '.' ++ keep .name (words ["should", "and"]) ++ blanks ++ one '(' <|>
      wordEdge ++ word "expect" ++ blanks ++ one '(' : Pattern)
  | .command => methodCall "cy"
  | .preamble =>
    textStart ++ word "///" ++ blanks ++ word "<reference" ++ many1 (char isBlank) ++
      word "types" ++ blanks ++ one '=' ++ blanks ++ quotedName "cypress"
  | .candidate => opening (head ["describe", "context", "it", "specify"] onlySkip)

def playwrightPattern : Slot → Option Pattern
  | .suite =>
    titled (head ["test.describe"] [".only", ".skip", ".serial", ".parallel"]) callback
  | .test => titled (head ["test"] [".only", ".skip", ".fixme"]) fixtureCallback
  | .hook .beforeAll => untitled (head ["test.beforeAll"] []) fixtureCallback
  | .hook .afterAll => untitled (head ["test.afterAll"] []) fixtureCallback
  | .hook .beforeEach => untitled (head ["test.beforeEach"] []) fixtureCallback
  | .hook .afterEach => untitled (head ["test.afterEach"] []) fixtureCallback
  | .step => none
  | .assertion =>
    -- the matcher closest behind the call, in the same statement
    wordEdge ++ word "expect" ++ blanks ++ one '(' ++ few (noneOf [';']) ++ one ')' ++
      blanks ++ one '.' ++ blanks ++ optional (word "not" ++ blanks ++ one '.' ++ blanks) ++
      keep .name (word "to" ++ many1 (char isWord)) ++ blanks ++ one '('
  | .command => methodCall "page"
  | .preamble => quotedName "@playwright/test"
  | .candidate =>
    opening (wordEdge ++ word "test" ++ optional (word ".describe") ++
      optional (words [".only", ".skip", ".fixme", ".serial", ".parallel"]))

def testRailPattern : Slot → Option Pattern
  | .suite => titled (head ["suite"] []) callback
  | .test => titled (head ["test_case", "testCase"] []) callback
  | .hook .beforeAll => untitled (head ["beforeAll"] []) callback
  | .hook .afterAll => untitled (head ["afterAll"] []) callback
  | .hook .beforeEach => untitled (head ["beforeEach"] []) callback
  | .hook .afterEach => untitled (head ["afterEach"] []) callback
  | .step => stepTitle ++ optional (blanks ++ one ',' ++ callback)
  | .assertion =>
    -- a step that begins with the word for checks, or a plain assert
    (wordEdge ++ word "step" ++ blanks ++ one '(' ++ blanks ++ oneOf ['\x27', '"', '\x60'] ++
        keep .name (word "Verify") ++ wordEdge <|>
      wordEdge ++ word "assert" ++ blanks ++ one '.' ++ blanks ++ many1 (char isWord) ++
        blanks ++ one '(' : Pattern)
  | .command => stepTitle
  | .preamble => quotedName "@testrail/api"
  | .candidate => opening (head ["suite", "test_case", "testCase"] [])

def pattern? : Framework → Slot → Option Pattern
  | .cypress => cypressPattern
  | .playwright => playwrightPattern
  | .testRail => testRailPattern

def occursIn (slot : Slot) (framework : Framework) (t : Text) : Bool :=
  (pattern? framework slot).any fun pattern => pattern.occursIn t

end Slot

end Parlance
