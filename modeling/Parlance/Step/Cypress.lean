import Parlance.Source.Chain
import Parlance.Source.Literal
import Parlance.Step.Basic

/-!
Reading chained commands and their checks as steps.
-/

namespace Parlance

open Source (Link)

/-- What has been read of a chain of commands: the complete steps, the queries that reach the current
element, the commands of the step being read and whether they do more than reach the element, and
the check that the page is read for, if the chain began by reading its address or title. -/
structure ChainReading where
  steps : List Step := []
  queries : List Query := []
  chain : List Command := []
  acts : Bool := false
  page : Option Expectation := none

namespace ChainReading

/-- Closes the step being read. -/
def close (r : ChainReading) : ChainReading :=
  { r with
    -- a step that only reaches its element is dropped
    steps := if r.acts then r.steps ++ [.chain r.chain] else r.steps
    chain := []
    acts := false }

/-- The commands of the step being read, which begins by reaching the current element. -/
def resumed (r : ChainReading) : List Command :=
  if r.chain.isEmpty then r.queries.map (Command.ofQuery .cypress) else r.chain

/-- The subject and the check that a chainer makes about what the chain has reached. -/
def checked (r : ChainReading) (chainer : Text) : Option (Subject × Lookup Expectation) :=
  match r.page with
  | some expectation => some (.page, .known expectation)
  | none =>
    if r.queries.isEmpty then none
    else some (.element r.queries, Expectation.lookup .cypress chainer)

def should (r : ChainReading) (source args : Text) : Option Assertion :=
  match Source.splitArguments args with
  | [] => none
  | first :: rest => do
    let chainer ← Source.unquote first
    let positive := Text.after? "not." chainer
    let (subject, expectation) ← r.checked (positive.getD chainer)
    some ⟨subject, expectation, positive.isSome, joinArguments? rest, source⟩

/-- Reads one more call. -/
def next (r : ChainReading) (source name args : Text) : Option ChainReading :=
  if name = "should".toList || name = "and".toList then
    (r.should source args).map fun assertion =>
      -- a check ends the step before it, and the next command resumes from the same element
      let closed := r.close
      { closed with steps := closed.steps ++ [.verify assertion] }
  else
    let action := Action.lookup .cypress name
    let chain := r.resumed ++ [.call action name args]
    match action.value?.filter Action.isQuery with
    | some query =>
      some { r with
        queries := r.queries ++ [⟨query, Text.trim args⟩]
        chain := chain
        page := none }
    | none => some { r with chain := chain, acts := true, page := none }

def pageCheck? (name : Text) : Option Expectation :=
  match Action.lookup .cypress name with
  | .known .url => some .haveUrl
  | .known .title => some .haveTitle
  | _ => none

def first (source name args : Text) : Option ChainReading :=
  match pageCheck? name with
  | some check =>
    some { chain := [.call (Action.lookup .cypress name) name args], page := some check }
  | none => next {} source name args

/-- Reads the calls of a chain after the first; a link that is no call stops the reading. -/
def links (r : ChainReading) (source : Text) : List Link → Option ChainReading
  | [] => some r
  | link :: rest => do
    let args ← link.args
    let r ← r.next source link.name args
    r.links source rest

/-- The steps of a chain that has been read to its end. A chain that only reaches an element is a
step if it is all there is. -/
def finish (r : ChainReading) : List Step :=
  if r.acts || (r.steps.isEmpty && !r.chain.isEmpty) then r.steps ++ [.chain r.chain] else r.steps

end ChainReading

/-- The steps of a chain of commands after its root. -/
def readCommands (source : Text) : List Link → Option (List Step)
  | [] => some []
  | link :: rest => do
    let args ← link.args
    let r ← ChainReading.first source link.name args
    let r ← r.links source rest
    some r.finish

/-- The check of a plain expression: words after `expect`, of which only the last may be a call. -/
def readExpectation (source subject : Text) (links : List Link) : Option Assertion := do
  let last ← links.getLast?
  if links.dropLast.any fun link => link.args.isSome then none
  else
    -- the words of language chains say nothing, and the negation may stand anywhere
    let words := links.map Link.name
    let verb := Text.join "." (words.filter fun w => w ≠ "to".toList && w ≠ "not".toList)
    some ⟨.value (Text.trim subject), Expectation.lookup .cypress verb,
      words.contains "not".toList, (last.args.map Text.trim).bind nonEmpty?, source⟩

def readCypress (statement : Text) : Option (List Step) := do
  let links ← Source.readChain statement
  match links with
  | [] => none
  | root :: rest =>
    match root.args with
    | none => if root.name = "cy".toList then readCommands statement rest else none
    | some subject =>
      if root.name = "expect".toList then
        (readExpectation statement subject rest).map fun assertion => [.verify assertion]
      else
        none

end Parlance
