import NnetText.Log.Setup
import NnetText.Preferences.Document
import NnetText.Summary

/-!
# The command

The command takes a model, converts it, and prints the result. It runs in surroundings that
answer questions about the environment, the standard input, files and documents; what it does is a
function of its arguments and these answers. A `Plan` is settled before anything is written, so that
the time it takes can be measured and shown.
-/

namespace NnetText

namespace Command

/-- What follows the model on the command line. -/
structure Options where
  /-- Whether the result is printed as a document. -/
  json : Bool := false
  /-- Whether only errors are logged. -/
  quiet : Bool := false
  /-- The document with preferences. -/
  preferences : Option String := none
deriving DecidableEq, Repr

/-- Something on the command line that is passed over. -/
inductive Warning where
  | missingPath
  | unknownOption (argument : String)
deriving DecidableEq, Repr

namespace Warning

/-- The words of a warning. -/
def message : Warning → String
  | missingPath => "Warning: --config requires a file path"
  | unknownOption argument => "Warning: Unknown option '" ++ argument ++ "'"

end Warning

namespace Options

/-- Reads options from left to right, on top of those read before. The argument behind
`--config` is a path, whatever it looks like, and the last path counts. -/
def read (options : Options) : List String → Options × List Warning
  | [] => (options, [])
  | "--config" :: path :: rest => read { options with preferences := some path } rest
  | argument :: rest =>
    if argument = "--json" then read { options with json := true } rest
    else if argument = "--quiet" then read { options with quiet := true } rest
    else
      let warning :=
        if argument = "--config" then Warning.missingPath else Warning.unknownOption argument
      let (options, warnings) := read options rest
      (options, warning :: warnings)

/-- **The options of an argument list**, and what is passed over in it. -/
def parse (arguments : List String) : Options × List Warning := read {} arguments

end Options

/-- The answers to all the command may ask. -/
structure Surroundings where
  environment : Environment
  /-- The standard input. -/
  input : List Delivery
  lookup : String → Lookup
  /-- How documents are decoded. -/
  decoder : Toml.Decoder

/-- What the command prints, and how it ends. -/
structure Outcome where
  status : Nat
  output : List String
  errors : List String
deriving DecidableEq, Repr

/-! ### What is printed -/

/-- How to call the command. -/
def usage (program : String) : List String :=
  ["Usage: " ++ program ++ " <model.txt|-> [options]", "       " ++ program ++ " --help"]

/-- The description of the command. -/
def help (limits : Limits) (program : String) : List String :=
  ["nnet3 converter v0.1.0",
    "Reads the component section of a text nnet3 model into an intermediate form",
    "",
    "USAGE:",
    "    " ++ program ++ " <model.txt> [options]",
    "    " ++ program ++ " - [options]            # Read the model from stdin",
    "",
    "OPTIONS:",
    "    --help              Show this help message",
    "    --json              Print the parsed components as JSON",
    "    --config <file>     Load runtime preferences from a TOML file",
    "    --quiet             Only log errors (logs always go to stderr)",
    "",
    "BUILD CONFIGURATION:",
    "    Generated from " ++ limits.origin,
    "    Registered component types: " ++ ", ".intercalate (Kind.registry.map Prod.fst)]

/-- The last words of a command that fails. -/
def failure (message : String) (code : Code) : List String :=
  ["", "FAILED: " ++ message, "  Code: " ++ code.text]

/-- An event as a line of the log. -/
def logLine (p : LogPreferences) (timestamp : String) (e : Event) : String :=
  if p.structured then (e.json timestamp).compact else e.text

/-- The lines of the log at a time. -/
def log (p : LogPreferences) (timestamp : String) (events : List Event) : List String :=
  (events.filter (fun e => e.level.keptAt p.least)).map (logLine p timestamp)

/-! ### What is done -/

/-- What the command does, settled but for the times that are shown. -/
inductive Plan where
  /-- To say how it is called. -/
  | usage
  /-- To describe itself. -/
  | help
  /-- To fail for want of preferences. -/
  | fail (warnings : List Warning) (e : PreferencesError)
  /-- To report a run. -/
  | report (title : String) (options : Options) (warnings : List Warning) (p : Preferences)
      (r : Run)

/-- The preferences that options ask for. -/
def preferences (options : Options) (s : Surroundings) : Except PreferencesError Preferences :=
  let loaded :=
    match options.preferences with
    | some path => Preferences.ofFile s.decoder s.environment path (s.lookup path)
    | none => .ok (Preferences.default s.environment)
  loaded.map (fun p => if options.quiet then p.quieted else p)

/-- The run for a model: a dash stands for the standard input. -/
def run (limits : Limits) (model : String) (s : Surroundings) : Run :=
  if model = "-" then Run.ofStream limits s.input else Run.ofFile limits model (s.lookup model)

/-- **What the command does** with its arguments. -/
def plan (limits : Limits) (arguments : List String) (s : Surroundings) : Plan :=
  match arguments with
  | [] => .usage
  | model :: rest =>
    if model = "--help" then .help
    else
      let (options, warnings) := Options.parse rest
      match preferences options s with
      | .error e => .fail warnings e
      | .ok p => .report model options warnings p (run limits model s)

/-- The lines of the result. -/
def result (title : String) (options : Options) (elapsed : Duration) (c : Conversion) :
    List String :=
  if options.json then [c.json.pretty]
  else c.summary title elapsed ++ ["", "SUCCESS: Component section converted"]

/-- **What comes of a plan** at given times. -/
def Plan.outcome (limits : Limits) (program : String) (timing : Timing) (timestamp : String) :
    Plan → Outcome
  | .usage => ⟨1, [], Command.usage program⟩
  | .help => ⟨0, Command.help limits program, []⟩
  | .fail warnings e => ⟨1, [], warnings.map Warning.message ++ failure e.message e.code⟩
  | .report title options warnings p r =>
    let told (events : List Event) := warnings.map Warning.message ++ log p.log timestamp events
    match Setup.start limits with
    | (ready, some e) => ⟨1, [], told ready ++ failure e.message e.code⟩
    | (ready, none) =>
      let told := told (ready ++ r.events p timing)
      match r.conversion with
      | .ok c => ⟨0, result title options timing.total c, told⟩
      | .error e => ⟨1, [], told ++ failure e.message e.code⟩

end Command

end NnetText
