import Parlance.Declaration.Slot
import Parlance.Draft.Check

/-!
Writing steps in the target vocabulary.
-/

namespace Parlance.Route

/-- A query as it reads in the source vocabulary. -/
def sourceQuery (r : Route) (q : Query) : Text :=
  (q.action.name? r.source).getD q.action.label ++ "(" ++ q.selector ++ ")"

/-- Queries, and perhaps a command, as they read in the source vocabulary, without the root. -/
def sourceCall (r : Route) (queries : List Query) (command : Option Command) : Text :=
  Text.join "." (queries.map r.sourceQuery ++ (command.map Command.text).toList)

/-- A command as code of the target, if it can be said there. -/
def codeAction (r : Route) (queries : List Query) (action : Action) (command : Command) :
    Option Text := do
  let name ← action.name? r.target
  let call := "." ++ name ++ "(" ++ r.arguments (command.args.getD []) ++ ");"
  let onPage := action.kind = .page
  match r.target with
  | .cypress => (if onPage then some "cy".toList else r.cypressLocator queries).map (· ++ call)
  | .playwright =>
    some ("await " ++ (if onPage then "page".toList else r.playwrightLocator queries) ++ call)
  | .testRail => none

def command (r : Route) (level : Nat) (queries : List Query) (command : Command) : Draft :=
  let call := r.sourceCall queries (some command)
  match command.action with
  | .unrecognized name => unmapped "command" name ++ r.fallback level call
  | .known action =>
    if r.target.isStepBased then
      r.commentStep level (actionTitle queries action (command.args.getD [])) call
    else
      match r.codeAction queries action command with
      | some code => r.line level code
      | none => r.noEquivalent command.name ++ r.fallback level call

def locate (r : Route) (level : Nat) (queries : List Query) : Draft :=
  let call := r.sourceCall queries none
  match r.target with
  | .cypress =>
    match r.cypressLocator queries with
    | some locator => r.line level (locator ++ ";")
    | none => r.noEquivalent call ++ r.fallback level call
  | .playwright => r.line level ("await " ++ r.playwrightLocator queries ++ ".waitFor();")
  | .testRail =>
    r.commentStep level (Action.label .locate ++ " " ++ elementWords queries) call

/-- Writes the commands of a chain, each with the queries before it; `queries` are those read so
far. -/
def commands (r : Route) (level : Nat) (queries : List Query) : List Command → Draft
  | [] => {}
  | c :: rest =>
    match c.query? with
    | some query => r.commands level (queries ++ [query]) rest
    | none => r.command level queries c ++ r.commands level queries rest

/-- Writes a chain. -/
def chain (r : Route) (level : Nat) (chain : List Command) : Draft :=
  let queries := chain.filterMap Command.query?
  -- queries that no command follows are still written, for themselves
  if chain.all (fun c => c.query?.isSome) && !queries.isEmpty then r.locate level queries
  else r.commands level [] chain

def keptAdvice (code : Text) : Draft :=
  .advice ("Statement passed through unchanged: " ++ Text.firstLine code)

def raw (r : Route) (level : Nat) (code : Text) : Draft :=
  if isComment code then r.verbatim level code
  else
    (if Slot.command.occursIn r.source code then keptAdvice code else {}) ++
      if r.target.isStepBased then
        r.openStep level performAction ++ r.block (level + 1) code ++ r.closeBlock level
      else
        r.verbatim level code

def step (r : Route) (level : Nat) : Step → Draft
  | .chain commands => r.chain level commands
  | .verify assertion => r.verify level assertion
  | .raw code => r.raw level code

def steps (r : Route) (level : Nat) (steps : List Step) : Draft :=
  .concat (steps.map (r.step level))

end Parlance.Route
