import Parlance.Source.Literal
import Parlance.Step.Basic

/-!
Titles of steps: how commands, elements and checks are put into words.
-/

namespace Parlance

/-- The value of an expression that is a single- or double-quoted literal. -/
def plainLiteral? (expr : Text) : Option Text :=
  if Text.firstIs (· = '\x60') expr then none else Source.unquote expr

/-- An expression in words: a literal without its quotes, anything else as written. -/
def bareWords (expr : Text) : Text :=
  let expr := Text.trim expr
  Text.oneLine ((plainLiteral? expr).getD expr)

def escapeValue (c : Char) : Text :=
  if c = '\\' then ['\\', '\\'] else if c = '"' then ['\\', '"']
  else if c = '\n' then ['\\', 'n'] else [c]

/-- An expression as a value in a title: a literal in double quotes, anything else as written. -/
def valueWords (expr : Text) : Text :=
  let expr := Text.trim expr
  match plainLiteral? expr with
  | some t => '"' :: t.flatMap escapeValue ++ ['"']
  | none => Text.oneLine expr

/-- The last query of an element in words. -/
def queryWords (q : Query) : Text :=
  match q.action.targetWord? with
  | some word => word ++ " " ++ valueWords q.selector
  | none => bareWords q.selector

/-- The selectors of queries that are all plain literals. -/
def selectors? (queries : List Query) : Option (List Text) :=
  queries.mapM fun q => if q.action = .locate then Source.unquote q.selector else none

/-- An element in words: its selectors, or its last query if they are no plain literals. -/
def elementWords (queries : List Query) : Text :=
  match queries.getLast? with
  | none => "page"
  | some query => ((selectors? queries).map (Text.join " ")).getD (queryWords query)

def subjectWords : Subject → Text
  | .page => "page"
  | .element queries => elementWords queries
  | .value expr => "value " ++ Text.oneLine expr

def verifyTitle (a : Assertion) (expectation : Expectation) : Text :=
  verifyWord ++ " " ++ subjectWords a.subject ++ " " ++ expectation.phrase a.negated ++
    (a.argument.map fun arg => " " ++ valueWords arg).getD []

/-- The title of a command that acts on the page, or on the element its queries reach. -/
def actionTitle (queries : List Query) (action : Action) (args : Text) : Text :=
  let args := Text.trim args
  if action.kind = .page then
    action.label ++ if args.isEmpty then [] else ' ' :: bareWords args
  else
    let target := if queries.isEmpty then [] else ' ' :: elementWords queries
    let value := if args.isEmpty then [] else " with ".toList ++ valueWords args
    action.label ++ target ++ value

end Parlance
