import NnetText.Log.Event

/-!
# The log window

A log in memory keeps the events logged last, up to its capacity, which is one at least. Events
may pass a filter by level on their way in.

The events are held as a queue in two parts, so that neither logging nor giving way depends on how
many there are. `Window.events` is the list that the queue stands for, and the operations are
described by what they do to it (`Window.events_push`, `Window.events_clear`).
-/

namespace NnetText

/-- The events logged last. -/
structure Window where
  capacity : Nat
  /-- The first of the events, oldest first. -/
  older : List Event := []
  /-- The events behind them, newest first. -/
  newer : List Event := []
  /-- The number of events. -/
  size : Nat := 0
  size_eq : size = older.length + newer.length := by rfl

namespace Window

/-- **The events**, oldest first. -/
def events (w : Window) : List Event := w.older ++ w.newer.reverse

theorem length_events (w : Window) : w.events.length = w.size := by
  simp [events, w.size_eq]

/-- How many events there is room for. -/
def room (w : Window) : Nat := max w.capacity 1

/-- Forgets the oldest event. -/
def dropOldest (w : Window) : Window :=
  match h : w.older with
  | _ :: older =>
    { w with older, size := w.size - 1, size_eq := by grind [w.size_eq] }
  | [] =>
    { w with
      older := w.newer.reverse.drop 1, newer := [], size := w.size - 1
      size_eq := by simp [w.size_eq, h] }

theorem events_dropOldest (w : Window) : w.dropOldest.events = w.events.drop 1 := by
  unfold dropOldest
  split <;> simp_all [events]

/-- Puts an event behind the others. -/
def append (w : Window) (e : Event) : Window :=
  { w with newer := e :: w.newer, size := w.size + 1, size_eq := by simp [w.size_eq]; omega }

theorem events_append (w : Window) (e : Event) : (w.append e).events = w.events ++ [e] := by
  simp [append, events]

/-- Logs an event; the oldest one gives way when the events fill the room. -/
def push (w : Window) (e : Event) : Window :=
  (if w.size = w.room then w.dropOldest else w).append e

/-- **Logging an event** puts it behind the others, of which the first is gone if they filled the
room. -/
theorem events_push (w : Window) (e : Event) :
    (w.push e).events =
      (if w.events.length = w.room then w.events.drop 1 else w.events) ++ [e] := by
  rw [push, events_append, length_events]
  split <;> simp [events_dropOldest]

/-- Logs an event if its level is kept. -/
def pushAt (w : Window) (least : Level) (e : Event) : Window :=
  if e.level.keptAt least then w.push e else w

/-- Forgets all events. -/
def clear (w : Window) : Window := { capacity := w.capacity }

theorem events_clear (w : Window) : w.clear.events = [] := rfl

/-- The events with a code. -/
def withCode (w : Window) (code : Code) : List Event :=
  w.events.filter (fun e => e.code = code)

/-- Whether an event with a code is there. -/
def containsCode (w : Window) (code : Code) : Bool :=
  w.events.any (fun e => e.code = code)

end Window

end NnetText
