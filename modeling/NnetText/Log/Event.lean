import NnetText.Json
import NnetText.Log.Code
import NnetText.Log.Level
import NnetText.OrderedMap
import NnetText.Position

/-!
# Log events

An event says what happened, how serious it is, where in the input, and in which context. Events
are values; when one is written to a structured log, the time is put in by the one who writes it.
-/

namespace NnetText

/-- One thing that happened. -/
structure Event where
  level : Level
  code : Code
  message : String
  position : Option Position := none
  context : OrderedMap String String := .empty
deriving DecidableEq, Repr

namespace Event

/-! ### Making events -/

/-- An error with its code. -/
def error (code : Code) (message : String) : Event := { level := .error, code, message }

/-- A warning. -/
def warning (message : String) : Event := { level := .warning, code := .plainWarning, message }

/-- Information. -/
def info (message : String) : Event := { level := .info, code := .plainInfo, message }

/-- Information that something was completed, with its code. -/
def success (code : Code) (message : String) : Event := { level := .info, code, message }

/-- A detail for debugging. -/
def debug (message : String) : Event := { level := .debug, code := .plainDebug, message }

/-- The event at a place. -/
def located (e : Event) (p : Position) : Event := { e with position := some p }

/-- The event with more context. A key that is there already keeps its place and takes the new
value. -/
def withContext (e : Event) (pairs : List (String × String)) : Event :=
  { e with context := pairs.foldl (fun m p => m.insert p.1 p.2) e.context }

/-- The event as it happens while a file is being worked on, if one is. -/
def inFile (e : Event) : Option String → Event
  | some path => e.withContext [("file", path)]
  | none => e

/-! ### Reading events -/

/-- Whether the event is an error. -/
def isError (e : Event) : Bool := e.level = .error

/-- Whether work has to stop. -/
def requiresHalt (e : Event) : Bool := e.code.requiresHalt

/-- The context as it stands in a log line. -/
def contextText (e : Event) : String :=
  if e.context.isEmpty then ""
  else " (" ++ ", ".intercalate (e.context.entries.map (fun p => p.1 ++ "=" ++ p.2)) ++ ")"

/-- **The event as a log line.** -/
def text (e : Event) : String :=
  "[" ++ e.level.label ++ "] " ++ e.code.text ++ " - " ++ e.message ++
    (e.position.map (fun p => " at " ++ p.text)).getD "" ++ e.contextText

/-- A place as a document. -/
def positionJson (p : Position) : Json :=
  .object [("line", .ofNat p.line), ("offset", .ofNat p.offset)]

/-- The meaning of a code as a document. -/
def diagnosisJson (d : Diagnosis) : Json :=
  .object
    [("category", .string d.category.name),
      ("severity", .string d.severity.name),
      ("requires_halt", .bool d.requiresHalt),
      ("description", .string d.description),
      ("recommended_action", .string d.recommendedAction)]

/-- **The event as a document**, at a given time. Errors carry the meaning of their code. -/
def json (e : Event) (timestamp : String) : Json :=
  let position := (e.position.map (fun p => [("position", positionJson p)])).getD []
  let context :=
    if e.context.isEmpty then []
    else [("context", Json.object (e.context.entries.map (fun p => (p.1, Json.string p.2))))]
  let diagnosis :=
    if e.isError then (e.code.diagnosis?.map (fun d => [("diagnosis", diagnosisJson d)])).getD []
    else []
  .object
    ([("timestamp", .string timestamp),
      ("level", .string e.level.name),
      ("code", .string e.code.text),
      ("message", .string e.message)] ++ position ++ context ++ diagnosis)

end Event

end NnetText
