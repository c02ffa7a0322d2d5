import Parlance.CommandLine.Request
import Parlance.Conversion
import Parlance.FileTree.Scan
import Parlance.Settings

/-!
Running requests on a tree of files.
-/

namespace Parlance

/-- Why a command ends without a result. -/
inductive CommandError where
  | readSettings (path : Text) (cause : FileError)
  | writeSettings (path : Text) (cause : FileError)
  | parseSettings (path : Text)
  | style (cause : StyleError)
  | readFile (path : Text) (cause : FileError)
  | createFolder (path : Text) (cause : FileError)
  | writeFile (path : Text) (cause : FileError)
  | undetected (path : Text)
  | missingPath (path : Text)
deriving DecidableEq, Repr

namespace CommandError

def message : CommandError → Text
  | .readSettings path cause => "Failed to read config " ++ path ++ ": " ++ cause.message
  | .writeSettings path cause => "Failed to write config " ++ path ++ ": " ++ cause.message
  | .parseSettings path => "Invalid config " ++ path
  | .style cause => cause.message
  | .readFile path _ => "Failed to read " ++ path
  | .createFolder path _ => "Failed to create " ++ path
  | .writeFile path _ => "Failed to write " ++ path
  | .undetected path => "Could not detect the framework of " ++ path ++ "; pass --from"
  | .missingPath path => "Path not found: " ++ path

/-- What caused an error, if that is a failure on files. -/
def cause? : CommandError → Option FileError
  | .readSettings _ cause | .writeSettings _ cause | .readFile _ cause | .createFolder _ cause
  | .writeFile _ cause => some cause
  | .parseSettings _ | .style _ | .undetected _ | .missingPath _ => none

def fullMessage (e : CommandError) : Text :=
  e.message ++ (e.cause?.map fun cause => ": ".toList ++ cause.message).getD []

end CommandError

namespace Settings

/-- The settings of a file; a file that is not there gives the defaults. -/
def load (tree : FileTree) (path : Text) : Except CommandError Settings :=
  if !tree.hasPath path then .ok {}
  else
    match tree.readText path with
    | .error cause => .error (.readSettings path cause)
    | .ok t =>
      match ofText? t with
      | some settings => .ok settings
      | none => .error (.parseSettings path)

/-- Writes the settings to a file, and makes the folders around it. -/
def save (s : Settings) (tree : FileTree) (path : Text) : FileTree × Except CommandError Unit :=
  match tree.makeParent path with
  | .error cause => (tree, .error (.writeSettings path cause))
  | .ok made =>
    match made.writeText path s.toText with
    -- the folders have been made, whatever became of the file
    | .error cause => (made, .error (.writeSettings path cause))
    | .ok written => (written, .ok ())

end Settings

namespace ConvertRequest

def destination? (request : ConvertRequest) : Option Text :=
  match request.destination with
  | .output => none
  | .source => some request.file
  | .path path => some path

/-- The source vocabulary: the one asked for, the one the source gives away, or the default. -/
def resolveSource (request : ConvertRequest) (t : Text) (settings : Settings) :
    Except CommandError Framework :=
  match (request.source.or (detectFramework t)).or settings.defaultSource with
  | some framework => .ok framework
  | none => .error (.undetected request.file)

/-- The outcome of a conversion, before anything is written. -/
def outcome (request : ConvertRequest) (tree : FileTree) (settings : Settings) :
    Except CommandError Outcome := do
  let t ← (tree.readText request.file).mapError (.readFile request.file)
  let source ← request.resolveSource t settings
  let style ← settings.style.mapError .style
  pure (convert source (request.target.getD settings.defaultTarget) style t)

/-- Writes code to its destination, and makes the folders around it. -/
def write (tree : FileTree) (path code : Text) : FileTree × Except CommandError Unit :=
  match tree.makeParent path with
  | .error cause => (tree, .error (.createFolder ((Path.parent? path).getD []) cause))
  | .ok made =>
    match made.writeText path code with
    -- the folders have been made, whatever became of the file
    | .error cause => (made, .error (.writeFile path cause))
    | .ok written => (written, .ok ())

/-- Converts a file. Only a conversion that succeeds is written. -/
def run (request : ConvertRequest) (tree : FileTree) (settings : Settings) :
    FileTree × Except CommandError Outcome :=
  match request.outcome tree settings with
  | .error e => (tree, .error e)
  | .ok outcome =>
    match request.destination?.filter fun _ => outcome.success with
    -- the code goes to the output, or there is none
    | none => (tree, .ok outcome)
    | some path =>
      let (written, result) := write tree path outcome.code
      (written, result.map fun _ => outcome)

end ConvertRequest

/-! ## Reports -/

/-- What a run of the program shows, and how it ends. -/
structure Report where
  exitCode : Nat := 0
  output : Text := []
  messages : Text := []
deriving DecidableEq, Repr

namespace Report

def messageLine (mark message : Text) : Text := mark ++ " " ++ message ++ ['\n']

def ofError (e : CommandError) : Report :=
  { exitCode := 2, messages := messageLine "error:" e.fullMessage }

/-- The report of a conversion: as JSON, or as its warnings and its error, its destination or its
code. -/
def ofOutcome (request : ConvertRequest) (format : OutputFormat) (outcome : Outcome) : Report :=
  let exitCode := if outcome.success then 0 else 1
  if format = .json then
    { exitCode := exitCode, output := outcome.toJson.text ++ ['\n'] }
  else
    let warnings := outcome.warnings.flatMap (messageLine "warning:")
    if !outcome.success then
      let message := outcome.errors.head?.getD "conversion failed"
      { exitCode := exitCode, messages := warnings ++ messageLine "error:" message }
    else
      match request.destination? with
      | some path =>
        let done := "Converted " ++ request.file ++ " -> " ++ path
        { exitCode := exitCode, messages := warnings ++ messageLine "✔" done }
      | none => { exitCode := exitCode, output := outcome.code, messages := warnings }

end Report

def detectedListing (found : List Detected) : Listing :=
  ⟨["Path", "Framework"], found.map fun d =>
    ([d.path, (d.framework.map Framework.name).getD "unknown"],
      .object [("path", .string d.path),
        ("framework", d.framework.elim .null fun f => .string f.name)])⟩

def pairsListing : Listing :=
  ⟨["From", "To"], Framework.pairs.map fun (source, target) =>
    ([source.name, target.name],
      .object [("from", .string source.name), ("to", .string target.name)])⟩

namespace Request

/-- Carries out the task of a request under some settings. -/
def perform (request : Request) (tree : FileTree) (settings : Settings) : FileTree × Report :=
  match request.task with
  | .convert conversion =>
    match conversion.run tree settings with
    | (tree, .ok outcome) => (tree, .ofOutcome conversion request.format outcome)
    | (tree, .error e) => (tree, .ofError e)
  | .detect paths =>
    match tree.scan paths with
    | .ok found => (tree, { output := (detectedListing found).textIn request.format })
    | .error path => (tree, .ofError (.missingPath path))
  | .pairs => (tree, { output := pairsListing.textIn request.format })
  | .describe => (tree, {})

/-- Carries out a request. The settings are read first, whatever the task. -/
def run (request : Request) (tree : FileTree) : FileTree × Report :=
  match request.task with
  | .describe => (tree, {})
  | _ =>
    match Settings.load tree request.settingsPath with
    | .error e => (tree, .ofError e)
    | .ok settings => request.perform tree settings

end Request

end Parlance
