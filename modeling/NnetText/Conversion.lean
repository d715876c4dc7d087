import NnetText.Component.Document
import NnetText.Log.Journal
import NnetText.Log.Reading
import NnetText.ModelFile
import NnetText.Section

/-!
# Conversion

A model comes as a text, as a stream of bytes or from a file, and is converted by reading its
component section. A `Run` is all there is to say about one attempt: where the model came from,
what came of it and what was noticed. The events of a run are worked out from it afterwards, with
the preferences and the times measured.
-/

namespace NnetText

/-- Where a model comes from. -/
inductive Source where
  | memory
  | stream
  | file (path : String)
deriving DecidableEq, Repr

namespace Source

/-- The name of a source in the log. -/
def name : Source → String
  | memory => "<memory>"
  | stream => "<stream>"
  | file path => path

/-- The file that events are told about. -/
def path? : Source → Option String
  | file path => some path
  | memory | stream => none

end Source

/-- Why a model was not converted. -/
inductive ConversionError where
  | file (e : FileError)
  | parse (e : ParseError)
  | stream (lines : Nat) (reason : String)
deriving DecidableEq, Repr

namespace ConversionError

/-- The words of an error. -/
def message : ConversionError → String
  | file e => "File processing failed: " ++ e.message
  | parse e => "Parsing failed: " ++ e.message
  | stream lines reason =>
    "Input stream failed after " ++ toString lines ++ " lines: " ++ reason

/-- The code of an error. -/
def code : ConversionError → Code
  | file e => e.code
  | parse e => e.code
  | stream _ _ => .ioError

end ConversionError

/-- A converted model. -/
structure Conversion where
  components : List Component
  /-- The file the model came from, if it came from one. -/
  file : Option FileInfo := none
deriving DecidableEq, Repr

namespace Conversion

/-- The number of constants of all components. -/
def constantCount (c : Conversion) : Nat :=
  (c.components.flatMap (fun x => x.constants.entries)).length

/-- The first component with a name. -/
def find? (c : Conversion) (name : String) : Option Component :=
  c.components.find? (fun x => x.name = name)

/-- **The converted model as a document.** -/
def json (c : Conversion) : Json :=
  .object
    [("source", (c.file.map (fun f => Json.string f.path)).getD .null),
      ("component_count", .ofNat c.components.length),
      ("constant_count", .ofNat c.constantCount),
      ("components", .array (c.components.map Component.json))]

/-- The event that reports a conversion. -/
def event (source : Source) (elapsed : Duration) (c : Conversion) : Event :=
  (Event.success .converted "Model conversion pipeline succeeded").withContext
    [("source", source.name), ("components", toString c.components.length),
      ("constants", toString c.constantCount), ("duration_ms", elapsed.milliseconds)]

end Conversion

/-- The times measured during a run. -/
structure Timing where
  /-- Reading the file. -/
  file : Duration
  /-- The whole run. -/
  total : Duration
deriving DecidableEq, Repr

namespace Timing

/-- No time at all. -/
def zero : Timing := ⟨.zero, .zero⟩

end Timing

/-- One attempt at converting a model. -/
structure Run where
  source : Source
  /-- The file, once it has been taken in. -/
  file : Option FileInfo
  outcome : Except ConversionError (List Component)
  notices : List Notice

namespace Run

/-- What the reading of a section amounts to. -/
def ofReading (source : Source) (file : Option FileInfo) (r : Reading (List Component)) : Run where
  source := source
  file := file
  outcome := r.1.mapError .parse
  notices := r.2.notices

/-- **Converts a text.** -/
def ofText (limits : Limits) (text : List Char) : Run :=
  ofReading .memory none (Section.read limits (Cursor.ofText text))

/-- **Converts a stream.** A line that cannot be read looks like the end of the input while
reading; once one has been met, it is the cause of failure, whatever reading made of it. -/
def ofStream (limits : Limits) (stream : List Delivery) : Run :=
  let reading := Section.read limits (Cursor.ofStream stream)
  let run := ofReading .stream none reading
  match reading.2.failure with
  | some reason => { run with outcome := .error (.stream reading.2.lineNumber reason) }
  | none => run

/-- Converts a stream of bytes that never fails. -/
def ofBytes (limits : Limits) (bytes : List UInt8) : Run := ofStream limits (bytes.map .ok)

/-- **Converts a file**, given what its path leads to: the file is taken in, and then its text is
converted. -/
def ofFile (limits : Limits) (path : String) (lookup : Lookup) : Run :=
  match ModelFile.accept limits path lookup with
  | .error e => ⟨.file path, none, .error (.file e), []⟩
  | .ok m => ofReading (.file path) (some m.info) (Section.read limits (Cursor.ofText m.text))

/-- The converted model. -/
def conversion (r : Run) : Except ConversionError Conversion :=
  r.outcome.map (fun components => ⟨components, r.file⟩)

/-! ### Events -/

/-- The events before the section is read: those of the file, if there is one. -/
def opening (p : Preferences) (timing : Timing) (r : Run) : List Event :=
  match r.source with
  | .memory | .stream => []
  | .file path =>
    [(Event.info "Starting model conversion pipeline").withContext [("file", path)],
      ModelFile.started path] ++
      (r.file.map (ModelFile.finished p.file.performance timing.file)).toList

/-- The events at the end. A failure of the stream was reported when it was met. -/
def closing (timing : Timing) (r : Run) : List Event :=
  match r.conversion with
  | .ok c => [c.event r.source timing.total]
  | .error (.file e) => [(ModelFile.refused r.source.name e)]
  | .error (.parse e) => [e.event]
  | .error (.stream _ _) => []

/-- What there is to say about a run, in order. -/
def remarks (p : Preferences) (timing : Timing) (r : Run) : List Event :=
  opening p timing r ++ Notice.events p.reading r.notices ++ closing timing r

/-- **Reports a run** to a journal. If the model comes from a file, that is the file being worked
on. -/
def report (p : Preferences) (timing : Timing) (r : Run) (j : Journal) : Journal :=
  match r.source.path? with
  | some path => j.within path (fun j => j.emitAll (remarks p timing r))
  | none => j.emitAll (remarks p timing r)

/-- **The events of a run**, all of them. -/
def events (p : Preferences) (timing : Timing) (r : Run) : List Event :=
  (r.report p timing {}).events

end Run

end NnetText
