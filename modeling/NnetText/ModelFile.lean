import NnetText.Directory
import NnetText.Duration
import NnetText.Limits
import NnetText.Log.Event

/-!
# Model files

A model file is taken in if its path leads to a regular file that is neither too large nor empty,
holds UTF-8 text, and has no more lines than allowed. The conditions are checked in this order,
and the first that fails is the error.
-/

namespace NnetText

/-- Why a model file is not taken in. -/
inductive FileError where
  | fileNotFound (path : String)
  | fileTooLarge (size limit : Nat)
  | emptyFile (path : String)
  | permissionDenied (path : String)
  | invalidEncoding (path : String)
  | ioError (path message : String)
  | invalidPath (path : String)
  | tooManyLines (lines limit : Nat)
deriving DecidableEq, Repr

namespace FileError

/-- The words of an error. -/
def message : FileError → String
  | fileNotFound path => "File not found: " ++ path
  | fileTooLarge size limit =>
    "File too large: " ++ toString size ++ " bytes (max: " ++ toString limit ++ ")"
  | emptyFile path => "File is empty: " ++ path
  | permissionDenied path => "Permission denied: " ++ path
  | invalidEncoding path => "File is not valid UTF-8 text: " ++ path
  | ioError path message => "I/O error reading " ++ path ++ ": " ++ message
  | invalidPath path => "Not a model file path: '" ++ path ++ "'"
  | tooManyLines lines limit =>
    "File has " ++ toString lines ++ " lines (max: " ++ toString limit ++ ")"

/-- The code of an error. -/
def code : FileError → Code
  | fileNotFound _ => .fileNotFound
  | fileTooLarge _ _ | tooManyLines _ _ => .fileTooLarge
  | emptyFile _ => .emptyFile
  | permissionDenied _ => .permissionDenied
  | invalidEncoding _ => .invalidEncoding
  | ioError _ _ => .ioError
  | invalidPath _ => .invalidPath

/-- The codes that errors of model files have. -/
def codes : List Code :=
  [.fileNotFound, .fileTooLarge, .emptyFile, .permissionDenied, .invalidEncoding, .ioError,
    .invalidPath]

end FileError

/-- What is known about a model file once it is read. -/
structure FileInfo where
  /-- The path without detours. -/
  path : String
  /-- The size in bytes. -/
  size : Nat
  lineCount : Nat
  modified : Option Int
deriving DecidableEq, Repr

namespace FileInfo

/-- A number of bytes in the largest unit that it fills: bytes as they are, larger units with two
places. The number is taken as a floating-point number first, so that a number too long for one
is rounded before the unit is chosen. -/
def sizeText (bytes : Nat) : String :=
  match (Format.double.ofInt bytes).meaning with
  | .finite _ m e =>
    let num := m * twoPow e.toNat
    let den := twoPow (-e).toNat
    let unit (power : Nat) (name : String) : String :=
      fixedRatio 2 num (den * twoPow (10 * power)) ++ " " ++ name
    if den * twoPow 30 ≤ num then unit 3 "GB"
    else if den * twoPow 20 ≤ num then unit 2 "MB"
    else if den * twoPow 10 ≤ num then unit 1 "KB"
    else toString bytes ++ " B"
  | _ => toString bytes ++ " B"

/-- The size in words. -/
def humanSize (f : FileInfo) : String := sizeText f.size

end FileInfo

/-- Megabytes per second, or zero for no time at all. -/
def throughput (size : Nat) (elapsed : Duration) : Double :=
  let seconds := elapsed.toSeconds
  if seconds.magnitude = 0 then Format.double.zero false
  else ((Format.double.ofInt size).div (Format.double.ofInt (1024 * 1024))).div seconds

/-- The text of a model file and what is known about it. -/
structure ModelFile where
  text : List Char
  info : FileInfo
deriving DecidableEq, Repr

namespace ModelFile

/-- The number of lines of a text; a line feed at the end starts no further one. -/
def lineCount (text : List Char) : Nat := (splitAfter (· == '\n') text).length

/-- The content of a file, decoded. -/
def decode (entry : FileEntry) : Except FileError (List Char) :=
  match entry.content with
  | .error .permissionDenied => .error (.permissionDenied entry.canonical)
  | .error (.other message) => .error (.ioError entry.canonical message)
  | .ok bytes =>
    match decodeUtf8 bytes with
    | some text => .ok text
    | none => .error (.invalidEncoding entry.canonical)

/-- A regular file as a model file. -/
def ofEntry (limits : Limits) (entry : FileEntry) : Except FileError ModelFile :=
  if limits.fileSize < entry.size then .error (.fileTooLarge entry.size limits.fileSize)
  else if entry.size = 0 then .error (.emptyFile entry.canonical)
  else
    match decode entry with
    | .error e => .error e
    | .ok text =>
      if limits.lineCount < lineCount text then
        .error (.tooManyLines (lineCount text) limits.lineCount)
      else .ok ⟨text, ⟨entry.canonical, entry.size, lineCount text, entry.modified⟩⟩

/-- **The model file at a path**, given what the path leads to. -/
def accept (limits : Limits) (path : String) (lookup : Lookup) : Except FileError ModelFile :=
  if path.isEmpty then .error (.invalidPath path)
  else
    match lookup with
    | .missing _ => .error (.fileNotFound path)
    | .directory | .special _ => .error (.invalidPath path)
    | .file entry => ofEntry limits entry

/-! ### Events -/

/-- The event that reading starts. -/
def started (path : String) : Event :=
  (Event.debug "Reading model file").withContext [("file", path)]

/-- The event that a file was read, with its size and the speed of reading if asked for. -/
def finished (withPerformance : Bool) (elapsed : Duration) (info : FileInfo) : Event :=
  let file := ("file", info.path)
  let lines := ("lines", toString info.lineCount)
  (Event.success .fileRead "Model file read").withContext
    (if withPerformance then
      [file, ("size", info.humanSize), lines, ("duration_ms", elapsed.milliseconds),
        ("mb_per_sec", (throughput info.size elapsed).fixed 2)]
    else [file, lines])

/-- The event that a file was not taken in. -/
def refused (path : String) (e : FileError) : Event :=
  (Event.error e.code e.message).withContext [("file", path)]

/-- **Reads a model file** and says what happened. -/
def read (limits : Limits) (withPerformance : Bool) (elapsed : Duration) (path : String)
    (lookup : Lookup) : Except FileError ModelFile × List Event :=
  match accept limits path lookup with
  | .ok m => (.ok m, [started path, finished withPerformance elapsed m.info])
  | .error e => (.error e, [started path, refused path e])

/-- The event that tells the limits on model files. -/
def limitsLoaded (limits : Limits) : Event :=
  (Event.debug "File processor limits loaded").withContext
    [("max_file_size", toString limits.fileSize), ("max_line_count", toString limits.lineCount)]

end ModelFile

end NnetText
