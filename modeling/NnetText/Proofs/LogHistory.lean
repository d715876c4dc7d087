import Mathlib.Data.List.DropRight
import NnetText.Log.Window

/-!
# The history of a log window

What a window shows is settled by what was done to it, one operation after the other
(`Window.after`): it shows the end of the list of the events logged since it was cleared last
(`Window.loggedSinceClear`), as long an end as there is room for. An event counts if it was logged
directly, or if its level is among those that the filter lets pass (`Level.upTo`).

The oldest event gives way only when the events fill the room exactly. That this is enough is no
matter of one operation. The invariant is `Window.Shows`: the window shows the end of a list. It
holds of the empty list at the start, and every event that is logged takes it to the list with the
event behind it (`Window.Shows.push`), since the end of a list that has filled the room fills it
ever after.
-/

namespace NnetText

/-- **The levels up to a given one**, in the order error, warning, info, debug. -/
def Level.upTo : Level → List Level
  | error => [error]
  | warning => [error, warning]
  | info => [error, warning, info]
  | debug => [error, warning, info, debug]

theorem Level.mem_upTo_iff {level least : Level} :
    level ∈ least.upTo ↔ level.keptAt least = true := by
  cases level <;> cases least <;> decide

namespace Window

/-- **What can be done to a window**: an event is logged through a filter by level or directly, or
all events are forgotten. -/
inductive Operation where
  | filtered (e : Event)
  | direct (e : Event)
  | clear
deriving DecidableEq

namespace Operation

/-- The window after an operation; the filter keeps levels down to `least`. -/
def apply (least : Level) (w : Window) : Operation → Window
  | filtered e => w.pushAt least e
  | direct e => w.push e
  | clear => w.clear

/-- The event that an operation logs, if it logs one. -/
def logged? (least : Level) : Operation → Option Event
  | filtered e => if e.level ∈ least.upTo then some e else none
  | direct e => some e
  | clear => none

end Operation

/-- **A window after operations**, the first of which finds it empty. -/
def after (capacity : Nat) (least : Level) (operations : List Operation) : Window :=
  operations.foldl (Operation.apply least) { capacity, size_eq := rfl }

/-- **The events logged since the window was cleared last**, or since the start. -/
def loggedSinceClear (least : Level) (operations : List Operation) : List Event :=
  (operations.rtakeWhile (· ≠ .clear)).filterMap (Operation.logged? least)

/-- **A window shows the end of a list of events**, as many of them as there is room for. -/
structure Shows (w : Window) (room : Nat) (logged : List Event) : Prop where
  room_eq : w.room = room
  events_eq : w.events = logged.rtake room

variable {w : Window} {room : Nat} {logged : List Event}

@[simp] theorem room_dropOldest (w : Window) : w.dropOldest.room = w.room := by
  unfold dropOldest
  split <;> rfl

@[simp] theorem room_push (w : Window) (e : Event) : (w.push e).room = w.room := by
  unfold push
  split
  · exact w.room_dropOldest
  · rfl

theorem room_pos (w : Window) : 0 < w.room := Nat.lt_of_lt_of_le Nat.one_pos (Nat.le_max_right _ _)

/-- The end of a list, one event on: the first event goes if the room was filled. -/
theorem rtake_concat_eq (logged : List Event) (e : Event) (h : 0 < room) :
    (logged ++ [e]).rtake room =
      (if (logged.rtake room).length = room then (logged.rtake room).drop 1
        else logged.rtake room) ++ [e] := by
  obtain ⟨others, rfl⟩ : ∃ others, room = others + 1 := ⟨room - 1, by omega⟩
  rw [List.rtake_concat_succ]
  congr 1
  unfold List.rtake
  rw [List.length_drop]
  split
  · rw [List.drop_drop]
    congr 1
    omega
  · congr 1
    omega

theorem Shows.push (h : w.Shows room logged) (e : Event) :
    (w.push e).Shows room (logged ++ [e]) := by
  refine ⟨w.room_push e ▸ h.room_eq, ?_⟩
  rw [events_push, h.events_eq, h.room_eq, rtake_concat_eq logged e (h.room_eq ▸ w.room_pos)]

theorem Shows.clear (h : w.Shows room logged) : w.clear.Shows room [] :=
  ⟨h.room_eq, (List.rtake_nil room).symm⟩

/-- **One operation**: what is logged comes behind the list, and clearing starts it anew. -/
theorem Shows.apply (h : w.Shows room logged) (least : Level) (operation : Operation) :
    (operation.apply least w).Shows room
      (if operation = .clear then [] else logged ++ (operation.logged? least).toList) := by
  cases operation with
  | filtered e =>
    rw [if_neg (by simp)]
    simp only [Operation.apply, Operation.logged?, pushAt, Level.mem_upTo_iff]
    by_cases hkept : e.level.keptAt least = true
    · simpa [hkept] using h.push e
    · simpa [hkept] using h
  | direct e => exact h.push e
  | clear => exact h.clear

theorem loggedSinceClear_concat (least : Level) (operations : List Operation)
    (operation : Operation) :
    loggedSinceClear least (operations ++ [operation]) =
      if operation = .clear then []
        else loggedSinceClear least operations ++ (operation.logged? least).toList := by
  unfold loggedSinceClear
  by_cases hclear : operation = .clear
  · rw [if_pos hclear, List.rtakeWhile_concat_neg _ _ _ (by simp [hclear])]
    rfl
  · rw [if_neg hclear, List.rtakeWhile_concat_pos _ _ _ (by simp [hclear]), List.filterMap_append]
    cases hlogged : operation.logged? least with
    | none => simp [hlogged]
    | some e => simp [hlogged]

/-- **The whole history**: the window shows the end of what was logged since it was cleared. The
induction is on the last operation. -/
theorem shows_after (capacity : Nat) (least : Level) (operations : List Operation) :
    (after capacity least operations).Shows (max capacity 1)
      (loggedSinceClear least operations) := by
  induction operations using List.reverseRecOn with
  | nil => exact ⟨rfl, (List.rtake_nil _).symm⟩
  | append_singleton operations last ih =>
    rw [loggedSinceClear_concat, after, List.foldl_append]
    exact ih.apply least last

theorem Shows.length_le (h : w.Shows room logged) : w.size ≤ room := by
  rw [← length_events, h.events_eq, List.rtake, List.length_drop]
  omega

theorem containsCode_iff (w : Window) (code : Code) :
    w.containsCode code = true ↔ w.withCode code ≠ [] := by
  constructor
  · intro hcontains hnone
    obtain ⟨e, hmem, hcode⟩ := List.any_eq_true.mp hcontains
    exact absurd hcode (List.filter_eq_nil_iff.mp hnone e hmem)
  · intro hsome
    obtain ⟨e, hmem⟩ := List.exists_mem_of_ne_nil _ hsome
    exact List.any_eq_true.mpr ⟨e, List.mem_filter.mp hmem⟩

/-- **A log in memory is a window on what was logged.** After any operations its events are the end
of the list of the events logged since it was cleared last, at most as many as there is room for;
and what is found under a code are those of them that carry it. -/
theorem events_after (capacity : Nat) (least : Level) (operations : List Operation) (code : Code) :
    let w := after capacity least operations
    let shown := (loggedSinceClear least operations).rtake (max capacity 1)
    w.events = shown ∧
    w.size = shown.length ∧ w.size ≤ max capacity 1 ∧
    w.withCode code = shown.filter (fun e => e.code = code) ∧
    (w.containsCode code = true ↔ w.withCode code ≠ []) := by
  intro w shown
  have hshows := shows_after capacity least operations
  refine ⟨hshows.events_eq, ?_, hshows.length_le, ?_, w.containsCode_iff code⟩
  · rw [← length_events, hshows.events_eq]
  · rw [withCode, hshows.events_eq]

end Window

end NnetText
