import NnetText.Log.Event

/-!
# The journal

Work hands its events over to a journal, one by one. While a file is being worked on, each event
is told about it; when that work is done, the file that was being worked on before is taken up
again. An event with a code of its own is always handed over, and any other only if the log keeps
its level.

`Journal.events` is the list of the events, and handing events over is described by what it does
to this list (`Journal.events_emitAll`).
-/

namespace NnetText

/-- The events handed over so far, and what the next one is told. -/
structure Journal where
  /-- The file that is being worked on, if one is. -/
  file : Option String := none
  /-- The least serious level that the log keeps. -/
  least : Level := .debug
  /-- The events, newest first. -/
  logged : List Event := []
deriving DecidableEq, Repr

namespace Event

/-- Whether an event has no code of its own. -/
def isPlain (e : Event) : Bool :=
  e.code = .plainInfo || e.code = .plainWarning || e.code = .plainDebug

end Event

namespace Journal

/-- The events in the order in which they were handed over. -/
def events (j : Journal) : List Event := j.logged.reverse

/-- Whether an event is handed over. -/
def takes (j : Journal) (e : Event) : Bool := !e.isPlain || e.level.keptAt j.least

/-- Hands an event over. -/
def emit (j : Journal) (e : Event) : Journal :=
  if j.takes e then { j with logged := e.inFile j.file :: j.logged } else j

/-- Hands events over in turn. -/
def emitAll (j : Journal) (events : List Event) : Journal := events.foldl emit j

/-- The part of some events that is handed over, each as it is told about the file. -/
def kept (j : Journal) (events : List Event) : List Event :=
  (events.filter j.takes).map (fun e => e.inFile j.file)

theorem emitAll_eq (j : Journal) (events : List Event) :
    j.emitAll events = { j with logged := (j.kept events).reverse ++ j.logged } := by
  induction events generalizing j with
  | nil => rfl
  | cons e events ih =>
    rw [emitAll, List.foldl_cons, ← emitAll, ih, emit]
    by_cases he : j.takes e = true
    · have htakes : Journal.takes { j with logged := e.inFile j.file :: j.logged } = j.takes := rfl
      simp [kept, he, htakes]
    · simp [kept, he]

/-- **Events that are handed over** come behind the others. -/
theorem events_emitAll (j : Journal) (events : List Event) :
    (j.emitAll events).events = j.events ++ j.kept events := by
  simp [emitAll_eq, Journal.events]

theorem file_emitAll (j : Journal) (events : List Event) : (j.emitAll events).file = j.file := by
  rw [emitAll_eq]

/-- **Work on a file**, which is forgotten when the work is done. -/
def within (j : Journal) (path : String) (work : Journal → Journal) : Journal :=
  { work { j with file := some path } with file := j.file }

end Journal

end NnetText
