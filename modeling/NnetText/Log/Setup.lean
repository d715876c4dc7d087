import NnetText.ModelFile

/-!
# Setting up the log

Before a model is converted the log is installed, once, and the codes that errors of model files
use are checked to be registered. Each step that succeeds is the first thing the log tells.
-/

namespace NnetText

/-- Why the log could not be set up. -/
inductive SetupError where
  | bufferTooSmall (size : Nat)
  | bufferTooLarge (size : Nat)
  | alreadyInstalled
  | unregistered (codes : List Code)
deriving DecidableEq, Repr

namespace SetupError

/-- The words of an error. -/
def message : SetupError → String
  | bufferTooSmall size =>
    "Configuration validation failed: Log buffer size too small: " ++ toString size
  | bufferTooLarge size =>
    "Configuration validation failed: Log buffer size too large: " ++ toString size
  | alreadyInstalled => "Global logger already initialized"
  | unregistered codes =>
    "Unregistered file processing codes: " ++ ", ".intercalate (codes.map Code.text)

/-- The code of all these errors. -/
def code (_ : SetupError) : Code := .initializationFailure

end SetupError

namespace Setup

/-- What is wrong with the room for events. -/
def bufferFault? (limits : Limits) : Option SetupError :=
  if limits.logBuffer < 100 then some (.bufferTooSmall limits.logBuffer)
  else if 1000000 < limits.logBuffer then some (.bufferTooLarge limits.logBuffer)
  else none

/-- Installs the log, unless one is installed. -/
def install (limits : Limits) (installed : Bool) : Except SetupError Event :=
  match bufferFault? limits with
  | some fault => .error fault
  | none =>
    if installed then .error .alreadyInstalled
    else
      .ok ((Event.success .logReady "Global logging system initialized").withContext
        [("buffer_size", toString limits.logBuffer)])

/-- The codes of errors of model files that are not registered. -/
def unregistered : List Code := FileError.codes.filter (fun c => c.diagnosis?.isNone)

/-- Checks the codes of model files and tells the limits. -/
def modelFiles (limits : Limits) : Except SetupError Event :=
  if unregistered.isEmpty then .ok (ModelFile.limitsLoaded limits)
  else .error (.unregistered unregistered)

/-- **Sets up the log**: the events it starts with, and what went wrong. -/
def start (limits : Limits) : List Event × Option SetupError :=
  match install limits false with
  | .error e => ([], some e)
  | .ok ready =>
    match modelFiles limits with
    | .error e => ([ready], some e)
    | .ok loaded => ([ready, loaded], none)

end Setup

end NnetText
