import Parlance.Framework
import Parlance.Listing

/-!
Requests on the command line: which command with which options, as read from the arguments.
-/

namespace Parlance

/-- Where the code of a conversion goes: to the standard output, back to the source or elsewhere. -/
inductive Destination where
  | output
  | source
  | path (path : Text)
deriving DecidableEq, Repr

/-- A file to be converted, with the vocabularies and the destination that were asked for. -/
structure ConvertRequest where
  file : Text
  source : Option Framework := none
  target : Option Framework := none
  destination : Destination := .output
deriving DecidableEq, Repr

/-- What is asked for. -/
inductive Task where
  | convert (request : ConvertRequest)
  | detect (paths : List Text)
  | pairs
  /-- Only a description of the program or its version. -/
  | describe
deriving DecidableEq, Repr

/-- A task, the file of the settings and the form of what is shown. -/
structure Request where
  settingsPath : Text
  format : OutputFormat
  task : Task
deriving DecidableEq, Repr

def defaultSettingsPath : Text := "testbridge.toml"

/-! ## Options -/

inductive Flag where
  | config
  | format
  | verbose
  | source
  | target
  | inPlace
  | output
  | help
  | version
deriving DecidableEq, Repr

namespace Flag

def name : Flag → Text
  | .config => "config"
  | .format => "format"
  | .verbose => "verbose"
  | .source => "from"
  | .target => "to"
  | .inPlace => "in-place"
  | .output => "output"
  | .help => "help"
  | .version => "version"

def letter? : Flag → Option Char
  | .verbose => some 'v'
  | .output => some 'o'
  | .help => some 'h'
  | .version => some 'V'
  | .config | .format | .source | .target | .inPlace => none

def takesValue : Flag → Bool
  | .config | .format | .source | .target | .output => true
  | .verbose | .inPlace | .help | .version => false

def common : List Flag := [.config, .format, .verbose, .help, .version]

/-- Whether an option has a value and the value can be one. -/
def accepts : Flag → Text → Bool
  | .config, value | .output, value => !value.isEmpty
  | .format, value => (OutputFormat.ofName? value).isSome
  | .source, value | .target, value => (Framework.ofTyped? value).isSome
  | .verbose, _ | .inPlace, _ | .help, _ | .version, _ => false

end Flag

/-- The arguments of one command: its options in order, with the values of those that have one, and
all else. -/
structure Arguments where
  options : List (Flag × Option Text) := []
  positionals : List Text := []
deriving DecidableEq, Repr

namespace Arguments

def has (a : Arguments) (flag : Flag) : Bool := a.options.any fun (f, _) => f = flag

def value? (a : Arguments) (flag : Flag) : Option Text :=
  (a.options.find? fun (f, _) => f = flag).bind Prod.snd

/-- Adds an option. An option can be given once, and its value has to be one that it accepts. -/
def addOption (a : Arguments) (flag : Flag) (value : Option Text) : Option Arguments :=
  if a.has flag || !value.all flag.accepts then none
  else some { a with options := a.options ++ [(flag, value)] }

def addPositional (a : Arguments) (value : Text) : Arguments :=
  { a with positionals := a.positionals ++ [value] }

end Arguments

/-- An option that still waits for its value, if any, after what has been read. -/
abbrev Reading := Arguments × Option Flag

/-- Reads letters after a single dash. A letter without a value may be followed by more letters. -/
def readLetters (flags : List Flag) (a : Arguments) : Text → Option Reading
  | [] => some (a, none)
  | letter :: rest => do
    let flag ← flags.find? fun f => f.letter? = some letter
    if flag.takesValue then
      -- the rest is the value, with or without an equals sign
      match rest with
      | [] => some (a, some flag)
      | '=' :: value => (a.addOption flag (some value)).map (·, none)
      | value => (a.addOption flag (some value)).map (·, none)
    else
      readLetters flags (← a.addOption flag none) rest

/-- Reads a name after two dashes, with its value if an equals sign follows. -/
def readName (flags : List Flag) (a : Arguments) (t : Text) : Option Reading := do
  let flag ← flags.find? fun f => f.name = t.takeWhile (· ≠ '=')
  match t.dropWhile (· ≠ '='), flag.takesValue with
  | [], true => some (a, some flag)
  | [], false => (a.addOption flag none).map (·, none)
  | _ :: value, true => (a.addOption flag (some value)).map (·, none)
  | _ :: _, false => none

/-- Reads the arguments of a command. `stops` tells the arguments at which reading stops; the result
has the arguments before and those from there on. -/
def readArguments (flags : List Flag) (stops : Text → Bool) (a : Arguments) (waiting : Option Flag) :
    List Text → Option (Arguments × List Text)
  | [] => if waiting.isSome then none else some (a, [])
  | argument :: rest =>
    match argument with
    -- two dashes alone turn all that follows into plain arguments
    | ['-', '-'] =>
      if waiting.isSome then none
      else some (rest.foldl Arguments.addPositional a, [])
    | '-' :: '-' :: t =>
      if waiting.isSome then none
      else do
        let (a, waiting) ← readName flags a t
        readArguments flags stops a waiting rest
    | '-' :: c :: t =>
      if waiting.isSome then none
      else do
        let (a, waiting) ← readLetters flags a (c :: t)
        readArguments flags stops a waiting rest
    | _ =>
      match waiting with
      -- an option waits for its value, which may look like the name of a command
      | some flag => do readArguments flags stops (← a.addOption flag (some argument)) none rest
      | none =>
        if stops argument then some (a, argument :: rest)
        else readArguments flags stops (a.addPositional argument) none rest

/-! ## Requests -/

def commandNames : List Text := ["convert", "detect", "pairs", "help"]

def readCommand (flags : List Flag) (arguments : List Text) : Option Arguments :=
  (readArguments (Flag.common ++ flags) (fun _ => false) {} none arguments).map Prod.fst

/-- The conversion that arguments ask for: one file, which is to be replaced or written elsewhere. -/
def convertTask (a : Arguments) : Option Task :=
  match a.positionals with
  | [file] =>
    if file.isEmpty || (a.has .inPlace && a.has .output) then none
    else
      some <| .convert
        { file := file
          source := (a.value? .source).bind Framework.ofTyped?
          target := (a.value? .target).bind Framework.ofTyped?
          destination :=
            if a.has .inPlace then .source else (a.value? .output).elim .output .path }
  | _ => none

/-- The search that arguments ask for: at least one path. -/
def detectTask (a : Arguments) : Option Task :=
  if a.positionals.isEmpty || a.positionals.any List.isEmpty then none
  else some (.detect a.positionals)

/-- The task of a command with its arguments. Help is given on the program or on one command. -/
def readTask (command : Text) (arguments : List Text) : Option (Arguments × Task) :=
  if command = "convert".toList then do
    let a ← readCommand [.source, .target, .inPlace, .output] arguments
    some (a, ← if a.has .help || a.has .version then some .describe else convertTask a)
  else if command = "detect".toList then do
    let a ← readCommand [] arguments
    some (a, ← if a.has .help || a.has .version then some .describe else detectTask a)
  else if command = "pairs".toList then do
    let a ← readCommand [] arguments
    if a.has .help || a.has .version then some (a, .describe)
    else if a.positionals.isEmpty then some (a, .pairs) else none
  else
    match arguments with
    | [] => some ({}, .describe)
    | [topic] => if commandNames.contains topic then some ({}, .describe) else none
    | _ => none

/-- The request that the arguments of the program make, unless they are malformed. -/
def Request.ofArguments (arguments : List Text) : Option Request := do
  let (before, rest) ← readArguments Flag.common commandNames.contains {} none arguments
  if !before.positionals.isEmpty then none
  else if before.has .help || before.has .version then
    some ⟨defaultSettingsPath, .table, .describe⟩
  else
    match rest with
    | [] => none
    | command :: rest =>
      let (after, task) ← readTask command rest
      -- an option may stand before and after the name of the command; the latter one counts
      let value? (flag : Flag) : Option Text := (after.value? flag).or (before.value? flag)
      some ⟨(value? .config).getD defaultSettingsPath,
        ((value? .format).bind OutputFormat.ofName?).getD .table, task⟩

end Parlance
