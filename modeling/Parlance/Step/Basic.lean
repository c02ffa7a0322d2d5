import Parlance.Source.Statement
import Parlance.Vocabulary.Action
import Parlance.Vocabulary.Expectation

/-!
Steps: what a statement of a test does, independent of the vocabulary it is written in.
-/

namespace Parlance

/-- A query for an element: the command and its argument list as written, quotes included. -/
structure Query where
  action : Action
  selector : Text
deriving DecidableEq, Repr

/-- What a check is about. -/
inductive Subject where
  /-- The page, for its address and its title. -/
  | page
  /-- The element that a chain of queries reaches. -/
  | element (queries : List Query)
  /-- A plain expression. -/
  | value (expr : Text)
deriving DecidableEq, Repr

def Subject.lastQuery? : Subject → Option Query
  | .element queries => queries.getLast?
  | .page | .value _ => none

/-- A check that a statement makes. -/
structure Assertion where
  subject : Subject
  expectation : Lookup Expectation
  negated : Bool
  /-- What is compared with, as written. -/
  argument : Option Text
  source : Text
deriving DecidableEq, Repr

/-- A command of a chain, with the name it is written under and, if it is a call, its arguments. -/
structure Command where
  action : Lookup Action
  name : Text
  args : Option Text
deriving DecidableEq, Repr

namespace Command

def call (action : Lookup Action) (name args : Text) : Command :=
  ⟨action, name, some (Text.trim args)⟩

/-- A query as a command of a vocabulary. -/
def ofQuery (f : Framework) (q : Query) : Command :=
  call (.known q.action) ((q.action.name? f).getD "locate") q.selector

/-- The query that a command is, if it is one. -/
def query? (c : Command) : Option Query :=
  (c.action.value?.filter Action.isQuery).map fun action => ⟨action, c.args.getD []⟩

def text (c : Command) : Text :=
  match c.args with
  | some args => c.name ++ "(" ++ args ++ ")"
  | none => c.name

def hasUnknownCallback (c : Command) : Bool :=
  c.action.value?.isNone && c.args.any Source.takesCallback

end Command

/-- What a statement does. -/
inductive Step where
  /-- Commands one after another; queries narrow down the element that the others act on. -/
  | chain (commands : List Command)
  | verify (assertion : Assertion)
  | raw (code : Text)
deriving DecidableEq, Repr

namespace Step

def assertion? : Step → Option Assertion
  | .verify assertion => some assertion
  | .chain _ | .raw _ => none

def hasUnknownCallback : Step → Bool
  | .chain commands => commands.any Command.hasUnknownCallback
  | .verify _ | .raw _ => false

def usesPage : Step → Bool
  | .chain _ => true
  | .verify assertion =>
    match assertion.subject with
    | .value _ => false
    | .page | .element _ => true
  | .raw _ => false

end Step

def verifyWord : Text := "Verify"

/-- The title of a step that stands for something no vocabulary names. -/
def performAction : Text := "Perform action"

def isComment (t : Text) : Bool := Text.startsWith t "//" || Text.startsWith t "/*"

/-- Arguments joined to an argument list; no arguments make none. -/
def joinArguments? : List Text → Option Text
  | [] => none
  | parts => some (Text.join ", " parts)

def nonEmpty? (t : Text) : Option Text := if t.isEmpty then none else some t

end Parlance
