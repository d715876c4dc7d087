import NnetText.Command
import NnetText.Moment
import Std.Time.DateTime.Timestamp

/-!
# The program

The program asks the system what the command may want to know, times the conversion and prints
what comes of it.
-/

namespace NnetText

/-- The answer for a path that cannot be followed. -/
def lookupOfError : IO.Error → Lookup
  | .noFileOrDirectory _ _ _ => .noSuchFile
  | .inappropriateType _ _ _ => .notADirectory
  | .invalidArgument _ _ _ => .nameTooLong
  | .permissionDenied _ _ _ => .missing "Permission denied (os error 13)"
  | e => .missing (toString e)

/-- The content of the file at a path. -/
def readContent (path : String) : IO (Except ReadFailure (List UInt8)) := do
  try
    let bytes ← IO.FS.readBinFile path
    return .ok bytes.toList
  catch e =>
    match e with
    | .permissionDenied _ _ _ => return .error .permissionDenied
    | _ => return .error (.other (toString e))

/-- What a path leads to on this system. Where it leads nowhere, trying to open it tells why. What
is no regular file is read only if asked for, because that may have no end. -/
def lookupPath (readsSpecial : Bool) (path : String) : IO Lookup := do
  if path.toList.contains '\x00' then
    return .nulByte
  try
    let canonical ← IO.FS.realPath path
    let data ← canonical.metadata
    match data.type with
    | .dir => return .directory
    | .file =>
      let content ← readContent canonical.toString
      return .file ⟨canonical.toString, data.byteSize.toNat, some data.modified.sec, content⟩
    | _ =>
      if readsSpecial then
        let content ← readContent canonical.toString
        return .special content
      return .special (.ok [])
  catch _ =>
    try
      let _ ← IO.FS.readBinFile path
      return .noSuchFile
    catch e => return lookupOfError e

/-- Everything a stream hands over, behind what was read before. A failure is the last of it. -/
partial def readStream (stream : IO.FS.Stream) (before : ByteArray) : IO (List Delivery) := do
  try
    let bytes ← stream.read 65536
    if bytes.isEmpty then
      return before.toList.map .ok
    readStream stream (before ++ bytes)
  catch e => return before.toList.map .ok ++ [.error (toString e)]

/-- The values of the variables that are looked at. -/
def readEnvironment : IO Environment := do
  let values ← Environment.names.mapM (fun name => do
    let value ← IO.getEnv name
    return (name, value))
  return fun name => (values.lookup name).join

/-- What a path leads to, and how long it took to find out. -/
def timedLookup (path : String) : IO (Lookup × Nat) := do
  let start ← IO.monoNanosNow
  let lookup ← lookupPath false path
  let stop ← IO.monoNanosNow
  return (lookup, stop - start)

/-- A number of nanoseconds as a span of time. -/
def spanOf (nanoseconds : Nat) : Duration :=
  ⟨nanoseconds / 1000000000, nanoseconds % 1000000000⟩

/-- Asks the system what the command wants to know; the time it took goes with the answers. -/
def askSystem (arguments : List String) : IO (Command.Surroundings × Nat) := do
  let environment ← readEnvironment
  match arguments with
  | [] => return (⟨environment, [], fun _ => .noSuchFile, Toml.decoder⟩, 0)
  | model :: rest =>
    let (options, _) := Command.Options.parse rest
    let settings ← options.preferences.mapM (fun path => do
      let lookup ← lookupPath true path
      return (path, lookup))
    let (modelLookup, elapsed) ← timedLookup model
    let lookup (path : String) : Lookup :=
      match settings.filter (fun s => s.1 = path) with
      | some s => s.2
      | none => if path = model then modelLookup else .noSuchFile
    let silent : Command.Surroundings := ⟨environment, [], lookup, Toml.decoder⟩
    if model = "-" && (Command.preferences options silent).isOk then
      let stdin ← IO.getStdin
      let input ← readStream stdin ByteArray.empty
      return ({ silent with input }, 0)
    else
      return (silent, elapsed)

/-- The current moment. -/
def currentMoment : IO Moment := do
  let now ← Std.Time.Timestamp.now
  let nanoseconds := now.toNanosecondsSinceUnixEpoch.val.toNat
  return ⟨nanoseconds / 1000000000, nanoseconds % 1000000000⟩

end NnetText

open NnetText in
/-- Runs the command with the arguments of the program. -/
def main (arguments : List String) : IO UInt32 := do
  let limits := Limits.standard.onSystem
  let program ← IO.appPath
  let (surroundings, reading) ← askSystem arguments
  let start ← IO.monoNanosNow
  let plan ← IO.lazyPure (fun _ => Command.plan limits arguments surroundings)
  let stop ← IO.monoNanosNow
  let now ← currentMoment
  let timing : Timing := ⟨spanOf reading, spanOf (reading + (stop - start))⟩
  let outcome := plan.outcome limits program.toString timing now.text
  outcome.errors.forM IO.eprintln
  outcome.output.forM IO.println
  return outcome.status.toUInt32
