import NnetText.Proofs.Maps
import NnetText.Proofs.Streaming

/-!
# One diagnosis for each failure

An attempt at a conversion is reported from three places. A line that cannot be read is an
error when it is met, a file that is not taken in when it is refused, and a fault in the text at
the very end. A bad line does not stop the reader, which goes on as if the input were over and
may well find a fault in what it has. So it has to be said why a failure is not reported twice,
and why none goes without a report.

The reason is that a bad line is noticed once, and that it is noticed just if the stream is what
failed (`Run.Consistent`). It comes down to what a run leaves on its trail, which is known exactly,
up to the tags passed over (`Section.exists_milestones_read`). With that, the events of a run are
found one kind at a time: its errors, the components completed, its success.
-/

namespace NnetText

/-! ### Events and journals -/

namespace Event

variable (e : Event) (file : Option String)

@[simp] theorem isError_inFile : (e.inFile file).isError = e.isError := by cases file <;> rfl

@[simp] theorem code_inFile : (e.inFile file).code = e.code := by cases file <;> rfl

@[simp] theorem message_inFile : (e.inFile file).message = e.message := by cases file <;> rfl

@[simp] theorem position_inFile : (e.inFile file).position = e.position := by cases file <;> rfl

/-- **An event is told about one file only**, whatever it said of a file before. -/
theorem filter_context_inFile (path : String) :
    (e.inFile (some path)).context.entries.filter (fun p => p.1 = "file") = [("file", path)] := by
  apply OrderedMap.filter_entries_of_get?
  change (e.context.insert "file" path).get? "file" = some path
  rw [OrderedMap.get?_insert, if_pos rfl]

end Event

/-- The smaller of two kinds is told from the larger. -/
theorem filter_filter_of_imp {α : Type} {f g : α → Bool} (h : ∀ a, f a = true → g a = true)
    (l : List α) : (l.filter g).filter f = l.filter f := by
  rw [List.filter_filter]
  refine List.filter_congr fun a _ => ?_
  cases hf : f a with
  | false => rfl
  | true => rw [h a hf, Bool.and_self]

namespace Journal

variable {j : Journal} {e : Event} {events : List Event}

theorem takes_of_isError (h : e.isError = true) : j.takes e = true := by
  have hlevel : e.level = .error := by simpa [Event.isError] using h
  simp [takes, Level.keptAt, Level.rank, hlevel]

/-- A code of its own gets an event into every journal. -/
theorem takes_of_code (code : Code) (hcode : e.code = code)
    (hplain : code ∉ [Code.plainInfo, .plainWarning, .plainDebug]) : j.takes e = true := by
  have h : e.isPlain = false := by simpa [Event.isPlain, hcode, and_assoc] using hplain
  simp [takes, h]

theorem kept_append (events events' : List Event) :
    j.kept (events ++ events') = j.kept events ++ j.kept events' := by
  rw [kept, List.filter_append, List.map_append, ← kept, ← kept]

theorem kept_singleton (h : j.takes e = true) : j.kept [e] = [e.inFile j.file] := by
  simp [kept, h]

theorem exists_of_mem_kept (h : e ∈ j.kept events) :
    ∃ e' ∈ events, e'.inFile j.file = e := by
  obtain ⟨e', hmem, heq⟩ := List.mem_map.mp h
  exact ⟨e', List.mem_of_mem_filter hmem, heq⟩

/-- **Events of a kind that is always handed over** are all there. -/
theorem filter_kept {q : Event → Bool} (htakes : ∀ e, q e = true → j.takes e = true)
    (hfile : ∀ e, q (e.inFile j.file) = q e) (events : List Event) :
    (j.kept events).filter q = (events.filter q).map (fun e => e.inFile j.file) := by
  have hq : q ∘ (fun e => e.inFile j.file) = q := funext hfile
  rw [kept, List.filter_map, hq, filter_filter_of_imp htakes]

end Journal

/-! ### What a section leaves behind -/

namespace Notice

/-- Whether a notice is about a component that is complete. -/
def isCompletion : Notice → Bool
  | componentRead _ _ _ _ _ => true
  | unreadableLine _ | skippedTag _ _ _ | sectionRead _ _ => false

/-- Whether a notice is about a line that cannot be read. -/
def isBadLine : Notice → Bool
  | unreadableLine _ => true
  | skippedTag _ _ _ | componentRead _ _ _ _ _ | sectionRead _ _ => false

variable {p : ReadingPreferences}

/-- **The kind of an event is that of its notice**: a bad line is an error, and a component that
is complete has a code to itself. -/
theorem kind_of_event? {n : Notice} {e : Event} (h : event? p n = some e) :
    e.isError = n.isBadLine ∧
      decide (e.code = .componentRead) = n.isCompletion ∧ decide (e.code = .converted) = false := by
  cases n with
  | unreadableLine reason =>
    obtain rfl := Option.some.inj h
    exact ⟨rfl, rfl, rfl⟩
  | skippedTag component tag place =>
    simp only [event?, Option.ite_none_right_eq_some, Option.some.injEq] at h
    obtain ⟨-, rfl⟩ := h
    exact ⟨rfl, rfl, rfl⟩
  | componentRead id name typeTag attributes constants =>
    simp only [event?, Option.ite_none_right_eq_some, Option.some.injEq] at h
    obtain ⟨-, rfl⟩ := h
    exact ⟨rfl, rfl, rfl⟩
  | sectionRead components lines =>
    obtain rfl := Option.some.inj h
    exact ⟨rfl, rfl, rfl⟩

/-- A kind of events that can be told from the notices. -/
theorem filter_events {q : Event → Bool} {f : Notice → Bool}
    (h : ∀ n e, event? p n = some e → q e = f n) (notices : List Notice) :
    (events p notices).filter q = events p (notices.filter f) := by
  rw [events, events, List.filter_filterMap, List.filterMap_filter]
  congr 1
  funext n
  cases he : event? p n with
  | none => simp
  | some e => cases hf : f n <;> simp [h n e he, hf]

end Notice

/-- The event that tells of a component. -/
def Component.summary (c : Component) : Event :=
  (Event.success .componentRead "Component parsed").withContext
    [("id", toString c.id), ("name", c.name), ("type", c.typeTag),
      ("attributes", toString c.attributes.size), ("constants", toString c.constants.size)]

namespace Section

theorem events_map_completed (p : ReadingPreferences) (components : List Component) :
    Notice.events p (components.map completed) =
      if p.componentSummaries then components.map Component.summary else [] := by
  have hevent : ∀ c : Component, Notice.event? p (completed c) =
      if p.componentSummaries then some c.summary else none := fun _ => rfl
  rw [Notice.events, List.filterMap_map]
  cases h : p.componentSummaries with
  | false => simp [hevent, h]
  | true => simp [hevent, h, List.filterMap_eq_map']

variable {c : Cursor}

/-- **The trail of a run**: the components that are complete, and a bad line if one was met. -/
theorem milestones_run (limits : Limits) (htrail : c.trail = []) (hsound : c.failure = none) :
    ((Stage.start c).run limits).cursor.milestones =
      ((Stage.start c).run limits).cursor.failure.toList.map .unreadableLine ++
        ((Stage.start c).run limits).found.map completed := by
  obtain ⟨d, hsince, hend⟩ := exists_since_run limits c
  generalize (Stage.start c).run limits = stop at *
  have hd : d.milestones = stop.found.map completed := by
    rw [hsince.milestones, Cursor.milestones, htrail, List.filter_nil, List.append_nil]
  have hsound' : d.failure = none := hsince.failure.trans hsound
  rcases hend with ⟨-, rfl⟩ | ⟨-, hadvance⟩
  · rw [hsound', hd]
    rfl
  · rcases Cursor.advance_cases d with ⟨-, heq⟩ | ⟨line, rest, -, heq⟩ | ⟨reason, rest, -, heq⟩
    · rw [← (Prod.mk.inj (heq.symm.trans hadvance)).2, hsound', hd]
      rfl
    · cases heq.symm.trans hadvance
    · rw [← (Prod.mk.inj (heq.symm.trans hadvance)).2, ← hd]
      rfl

/-- **What reading a section notices**, tags passed over apart: the components that are complete,
a bad line if one was met, and the end of the section unless reading failed. -/
theorem exists_milestones_read (limits : Limits) (htrail : c.trail = [])
    (hsound : c.failure = none) :
    ∃ rest : List Notice, (read limits c).2.notices.filter Notice.isMilestone =
        ((Stage.start c).run limits).found.reverse.map completed ++
          (read limits c).2.failure.toList.map .unreadableLine ++ rest ∧
      ∀ n ∈ rest, ∃ components lines, n = .sectionRead components lines := by
  have hrun : ((Stage.start c).run limits).cursor.notices.filter Notice.isMilestone =
      ((Stage.start c).run limits).found.reverse.map completed ++
        (read limits c).2.failure.toList.map .unreadableLine := by
    rw [Cursor.notices, List.filter_reverse, ← Cursor.milestones,
      milestones_run limits htrail hsound, List.reverse_append, ← List.map_reverse, failure_read]
    cases ((Stage.start c).run limits).cursor.failure <;> rfl
  have hclosed : ∀ components lines,
      (((Stage.start c).run limits).cursor.note (.sectionRead components lines)).notices.filter
          Notice.isMilestone =
        ((Stage.start c).run limits).cursor.notices.filter Notice.isMilestone ++
          [.sectionRead components lines] := by
    intro components lines
    rw [Cursor.notices_note, List.filter_append]
    rfl
  rw [← hrun, read_eq_run, Stop.result]
  cases ((Stage.start c).run limits).cause with
  | failure e => exact ⟨[], (List.append_nil _).symm, by simp⟩
  | inputEnd => exact ⟨_, hclosed _ _, by simp⟩
  | sectionEnd => exact ⟨_, hclosed _ _, by simp⟩

/-- A kind of notices that leaves out tags passed over and the end of the section. -/
theorem filter_notices_read (limits : Limits) (htrail : c.trail = []) (hsound : c.failure = none)
    {f : Notice → Bool}
    (hf : ∀ n, f n = true → n.isBadLine = true ∨ n.isCompletion = true) :
    (read limits c).2.notices.filter f =
      (((Stage.start c).run limits).found.reverse.map completed ++
        (read limits c).2.failure.toList.map Notice.unreadableLine).filter f := by
  obtain ⟨rest, hmilestones, hrest⟩ := exists_milestones_read limits htrail hsound
  have hmilestone : ∀ n, f n = true → n.isMilestone = true := by
    intro n hn
    rcases hf n hn with hbad | hcompletion
    · cases n <;> trivial
    · cases n <;> trivial
  have hend : rest.filter f = [] := by
    rw [List.filter_eq_nil_iff]
    intro n hmem hn
    obtain ⟨components, lines, rfl⟩ := hrest n hmem
    rcases hf _ hn with hbad | hcompletion
    · cases hbad
    · cases hcompletion
  rw [← filter_filter_of_imp hmilestone, hmilestones, List.filter_append, hend, List.append_nil]

/-- **The components noticed are those completed**, in their order. -/
theorem filter_isCompletion_read (limits : Limits) (htrail : c.trail = [])
    (hsound : c.failure = none) :
    (read limits c).2.notices.filter Notice.isCompletion =
      ((Stage.start c).run limits).found.reverse.map completed := by
  rw [filter_notices_read limits htrail hsound (fun _ => Or.inr), List.filter_append,
    List.filter_eq_self.mpr, List.append_right_eq_self]
  · cases (read limits c).2.failure <;> rfl
  · intro n hn
    obtain ⟨component, -, rfl⟩ := List.mem_map.mp hn
    rfl

/-- **A bad line is noticed once**, if one was met. -/
theorem filter_isBadLine_read (limits : Limits) (htrail : c.trail = [])
    (hsound : c.failure = none) :
    (read limits c).2.notices.filter Notice.isBadLine =
      (read limits c).2.failure.toList.map .unreadableLine := by
  rw [filter_notices_read limits htrail hsound (fun _ => Or.inl), List.filter_append,
    List.filter_eq_nil_iff.mpr, List.nil_append]
  · cases (read limits c).2.failure <;> rfl
  · intro n hn
    obtain ⟨component, -, rfl⟩ := List.mem_map.mp hn
    exact Bool.false_ne_true

end Section

/-! ### Runs -/

theorem ConversionError.kind_of_code (e : ConversionError) :
    decide (e.code = .componentRead) = false ∧ decide (e.code = .converted) = false := by
  cases e with
  | file e => cases e <;> exact ⟨rfl, rfl⟩
  | parse e => cases e <;> exact ⟨rfl, rfl⟩
  | stream lines reason => exact ⟨rfl, rfl⟩

/-- **What events tell about an attempt.** A failure is diagnosed by one error, of its code; if it
is a fault in the text, the error has its words and its place. A success has no errors and is
reported last, and then the components are all that were completed. -/
inductive Diagnoses (completed : List Component) :
    Except ConversionError (List Component) → List Event → Prop
  | failure {e : ConversionError} {events : List Event} (x : Event)
      (only : events.filter Event.isError = [x]) (code : x.code = e.code)
      (fault : ∀ cause, e = .parse cause →
        x.message = cause.message ∧ x.position = cause.position?)
      (unreported : ∀ y ∈ events, y.code ≠ .converted) : Diagnoses completed (.error e) events
  | success {earlier : List Event} (last : Event)
      (flawless : (earlier ++ [last]).filter Event.isError = [])
      (reported : last.code = .converted) (once : ∀ y ∈ earlier, y.code ≠ .converted) :
      Diagnoses completed (.ok completed) (earlier ++ [last])

namespace Run

variable {r : Run} {p : Preferences} {timing : Timing} {j : Journal} {e : Event}

/-- **The outcome agrees with what was noticed**: a bad line was noticed just if it is the cause
of failure, and then once and for the same reason. -/
structure Consistent (r : Run) : Prop where
  met : ∀ lines reason, r.outcome = .error (.stream lines reason) →
    r.notices.filter Notice.isBadLine = [.unreadableLine reason]
  unmet : (∀ lines reason, r.outcome ≠ .error (.stream lines reason)) →
    r.notices.filter Notice.isBadLine = []

/-- The opening is not about the section. -/
theorem code_of_mem_opening (h : e ∈ opening p timing r) :
    e.isError = false ∧ e.code ∈ [Code.plainInfo, .plainDebug, .fileRead] := by
  unfold opening at h
  split at h
  · simp at h
  · simp at h
  · simp only [List.cons_append, List.nil_append, List.mem_cons, Option.mem_toList,
      Option.map_eq_some_iff] at h
    rcases h with rfl | rfl | ⟨info, -, rfl⟩
    · exact ⟨rfl, .head _⟩
    · exact ⟨rfl, .tail _ (.head _)⟩
    · exact ⟨rfl, .tail _ (.tail _ (.head _))⟩

theorem kind_of_mem_opening (h : e ∈ opening p timing r) :
    e.isError = false ∧ decide (e.code = .componentRead) = false ∧
      decide (e.code = .converted) = false := by
  obtain ⟨herror, hcode⟩ := code_of_mem_opening h
  refine ⟨herror, ?_, ?_⟩
  · exact decide_eq_false (ne_of_mem_of_not_mem hcode (by decide))
  · exact decide_eq_false (ne_of_mem_of_not_mem hcode (by decide))

/-- The events of a kind that the opening does not have. -/
theorem filter_remarks {q : Event → Bool} {f : Notice → Bool}
    (hopening : ∀ e ∈ opening p timing r, q e = false)
    (hnotices : ∀ n e, Notice.event? p.reading n = some e → q e = f n) :
    (remarks p timing r).filter q =
      Notice.events p.reading (r.notices.filter f) ++ (closing timing r).filter q := by
  have hnone : (opening p timing r).filter q = [] := by
    rw [List.filter_eq_nil_iff]
    intro e he
    rw [hopening e he]
    exact Bool.false_ne_true
  rw [remarks, List.filter_append, List.filter_append, hnone, List.nil_append,
    Notice.filter_events hnotices]

/-- **The errors of a run**: a bad line that was noticed, and what the closing says. -/
theorem filter_isError_kept (r : Run) (p : Preferences) (timing : Timing) (j : Journal) :
    (j.kept (remarks p timing r)).filter Event.isError =
      (Notice.events p.reading (r.notices.filter Notice.isBadLine) ++
        (closing timing r).filter Event.isError).map (fun e => e.inFile j.file) := by
  rw [Journal.filter_kept (fun _ => Journal.takes_of_isError) (fun e => e.isError_inFile _),
    filter_remarks (fun e he => (kind_of_mem_opening he).1)
      (fun n e he => (Notice.kind_of_event? he).1)]

/-- Success is not reported before the closing. -/
theorem code_ne_converted_of_mem_kept
    (h : e ∈ j.kept (opening p timing r ++ Notice.events p.reading r.notices)) :
    e.code ≠ .converted := by
  obtain ⟨e', hmem, rfl⟩ := Journal.exists_of_mem_kept h
  rw [Event.code_inFile]
  rcases List.mem_append.mp hmem with hmem | hmem
  · exact of_decide_eq_false (kind_of_mem_opening hmem).2.2
  · obtain ⟨n, -, hn⟩ := List.mem_filterMap.mp hmem
    exact of_decide_eq_false (Notice.kind_of_event? hn).2.2

/-- What is said at the end: nothing if a bad line has been reported already, and otherwise one
thing, by the outcome. -/
theorem closing_cases (timing : Timing) (r : Run) :
    (∃ components, r.outcome = .ok components ∧
      closing timing r = [Conversion.event r.source timing.total ⟨components, r.file⟩]) ∨
    (∃ e x, r.outcome = .error e ∧ (∀ lines reason, e ≠ .stream lines reason) ∧
      closing timing r = [x] ∧ x.isError = true ∧ x.code = e.code ∧
      ∀ cause, e = .parse cause → x.message = cause.message ∧ x.position = cause.position?) ∨
    ∃ lines reason, r.outcome = .error (.stream lines reason) ∧ closing timing r = [] := by
  rcases houtcome : r.outcome with (e | e | ⟨lines, reason⟩) | components
  · refine Or.inr (Or.inl
      ⟨_, ModelFile.refused r.source.name e, rfl, by simp, ?_, rfl, rfl, by simp⟩)
    rw [closing, conversion, houtcome]
    rfl
  · refine Or.inr (Or.inl ⟨_, e.event, rfl, by simp, ?_, rfl, rfl, ?_⟩)
    · rw [closing, conversion, houtcome]
      rfl
    · rintro cause heq
      obtain rfl := ConversionError.parse.inj heq
      exact ⟨rfl, rfl⟩
  · refine Or.inr (Or.inr ⟨lines, reason, rfl, ?_⟩)
    rw [closing, conversion, houtcome]
    rfl
  · refine Or.inl ⟨components, rfl, ?_⟩
    rw [closing, conversion, houtcome]
    rfl

/-- **The events of a consistent run diagnose it.** -/
theorem Consistent.diagnoses (h : r.Consistent) (p : Preferences) (timing : Timing) (j : Journal)
    {completed : List Component}
    (hcompleted : ∀ components, r.outcome = .ok components → components = completed) :
    Diagnoses completed r.outcome (j.kept (remarks p timing r)) := by
  have herrors := filter_isError_kept r p timing j
  rcases closing_cases timing r with ⟨components, houtcome, hclosing⟩ |
    ⟨e, x, houtcome, hstream, hclosing, herror, hcode, hfault⟩ |
    ⟨lines, reason, houtcome, hclosing⟩
  · rw [h.unmet (by simp [houtcome]), hclosing] at herrors
    have hlast : j.kept (remarks p timing r) =
        j.kept (opening p timing r ++ Notice.events p.reading r.notices) ++
          [(Conversion.event r.source timing.total ⟨components, r.file⟩).inFile j.file] := by
      rw [remarks, hclosing, Journal.kept_append,
        Journal.kept_singleton (Journal.takes_of_code .converted rfl (by decide))]
    rw [houtcome, hcompleted components houtcome, hlast]
    rw [hlast] at herrors
    exact .success _ herrors (Event.code_inFile _ _) fun y => code_ne_converted_of_mem_kept
  · -- a refusal or a fault in the text: nothing was noticed, and it is said at the end
    rw [h.unmet (by simpa [houtcome] using hstream), hclosing, List.filter_singleton, herror]
      at herrors
    rw [houtcome]
    refine .failure (x.inFile j.file) herrors ((Event.code_inFile _ _).trans hcode) ?_ ?_
    · simpa using hfault
    · intro y hy
      rw [remarks, hclosing, Journal.kept_append, List.mem_append,
        Journal.kept_singleton (Journal.takes_of_isError herror), List.mem_singleton] at hy
      rcases hy with hy | rfl
      · exact code_ne_converted_of_mem_kept hy
      · rw [Event.code_inFile, hcode]
        exact of_decide_eq_false e.kind_of_code.2
  · -- the stream failed: that was noticed, and what reading made of it is not said
    rw [h.met lines reason houtcome, hclosing] at herrors
    rw [houtcome]
    refine .failure _ herrors (Event.code_inFile _ _) (by simp) ?_
    intro y hy
    rw [remarks, hclosing, List.append_nil] at hy
    exact code_ne_converted_of_mem_kept hy

/-- **The components of which a run tells** are those it noticed to be complete. -/
theorem filter_componentRead_kept (r : Run) (p : Preferences) (timing : Timing) (j : Journal) :
    (j.kept (remarks p timing r)).filter (fun e => e.code = .componentRead) =
      (Notice.events p.reading (r.notices.filter Notice.isCompletion)).map
        (fun e => e.inFile j.file) := by
  have hclosing : (closing timing r).filter (fun e => e.code = .componentRead) = [] := by
    rcases closing_cases timing r with ⟨components, -, hclosing⟩ |
      ⟨e, x, -, -, hclosing, -, hcode, -⟩ | ⟨lines, reason, -, hclosing⟩
    · rw [hclosing]
      rfl
    · rw [hclosing, List.filter_singleton, hcode, e.kind_of_code.1]
      rfl
    · rw [hclosing]
      rfl
  rw [Journal.filter_kept
      (fun e he => Journal.takes_of_code .componentRead (of_decide_eq_true he) (by decide))
      (fun e => by rw [Event.code_inFile]),
    filter_remarks (fun e he => (kind_of_mem_opening he).2.1)
      (fun n e he => (Notice.kind_of_event? he).2.1),
    hclosing, List.append_nil]

/-- What a journal takes in from a run, and the file it goes back to. -/
theorem report_eq (r : Run) (p : Preferences) (timing : Timing) (j : Journal) :
    (r.report p timing j).events = j.events ++
        Journal.kept { j with file := r.source.path?.or j.file } (remarks p timing r) ∧
      (r.report p timing j).file = j.file := by
  unfold report
  cases r.source.path? with
  | some path => exact ⟨Journal.events_emitAll _ _, rfl⟩
  | none => exact ⟨Journal.events_emitAll _ _, Journal.file_emitAll _ _⟩

end Run

/-! ### From the input to the journal -/

/-- **What there is to convert**: a text, a stream, or a path with what it leads to. -/
inductive Input where
  | text (content : List Char)
  | stream (deliveries : List Delivery)
  | file (path : String) (lookup : Lookup)

namespace Input

/-- The attempt to convert it. -/
def run (limits : Limits) : Input → Run
  | text content => .ofText limits content
  | stream deliveries => .ofStream limits deliveries
  | file path lookup => .ofFile limits path lookup

/-- The path as it was given, if one was. -/
def path? : Input → Option String
  | file path _ => some path
  | text _ | stream _ => none

/-- Where reading begins, unless a file is not taken in. -/
def begin? (limits : Limits) : Input → Option Cursor
  | text content => some (.ofText content)
  | stream deliveries => some (.ofStream deliveries)
  | file path lookup =>
    (ModelFile.accept limits path lookup).toOption.map (fun m => .ofText m.text)

/-- **The components completed before the end**, in the order in which they were. -/
def completed (limits : Limits) (input : Input) : List Component :=
  match input.begin? limits with
  | some c => ((Section.Stage.start c).run limits).found.reverse
  | none => []

theorem path?_run (limits : Limits) (input : Input) :
    (input.run limits).source.path? = input.path? := by
  cases input with
  | text content => rfl
  | stream deliveries =>
    simp only [run, Run.ofStream]
    split <;> rfl
  | file path lookup =>
    simp only [run, Run.ofFile]
    split <;> rfl

/-- **An attempt is refused or reads a section.** -/
theorem run_cases (limits : Limits) (input : Input) :
    (∃ e, input.begin? limits = none ∧ (input.run limits).outcome = .error (.file e) ∧
      (input.run limits).notices = []) ∨
    ∃ c, input.begin? limits = some c ∧ c.trail = [] ∧ c.failure = none ∧
      (input.run limits).notices = (Section.read limits c).2.notices ∧
      (input.run limits).outcome =
        match (Section.read limits c).2.failure with
        | some reason => .error (.stream (Section.read limits c).2.lineNumber reason)
        | none => (Section.read limits c).1.mapError .parse := by
  cases input with
  | text content =>
    refine Or.inr ⟨.ofText content, rfl, rfl, rfl, rfl, ?_⟩
    rw [Section.failure_read_ofText]
    rfl
  | stream deliveries =>
    refine Or.inr ⟨.ofStream deliveries, rfl, rfl, rfl, ?_, ?_⟩
    · simp only [run, Run.ofStream]
      split <;> rfl
    · simp only [run, Run.ofStream]
      cases (Section.read limits (Cursor.ofStream deliveries)).2.failure <;> rfl
  | file path lookup =>
    simp only [run, begin?, Run.ofFile]
    cases ModelFile.accept limits path lookup with
    | error e => exact Or.inl ⟨e, rfl, rfl, rfl⟩
    | ok m =>
      refine Or.inr ⟨.ofText m.text, rfl, rfl, rfl, rfl, ?_⟩
      rw [Section.failure_read_ofText]
      rfl

/-- **The stream is what failed just if a bad line was noticed**, and it was noticed once. -/
theorem consistent_run (limits : Limits) (input : Input) : (input.run limits).Consistent := by
  rcases input.run_cases limits with ⟨e, -, houtcome, hnotices⟩ |
    ⟨c, -, htrail, hsound, hnotices, houtcome⟩
  · refine ⟨?_, ?_⟩
    · intro lines reason h
      cases houtcome.symm.trans h
    · intro _
      rw [hnotices]
      rfl
  · have hline := Section.filter_isBadLine_read limits htrail hsound
    rw [← hnotices] at hline
    cases hmet : (Section.read limits c).2.failure with
    | some met =>
      rw [hmet] at houtcome hline
      refine ⟨?_, fun h => absurd houtcome (h _ _)⟩
      intro lines reason h
      cases houtcome.symm.trans h
      exact hline
    | none =>
      rw [hmet] at houtcome hline
      refine ⟨?_, fun _ => hline⟩
      intro lines reason h
      -- without a bad line the outcome is that of reading
      rw [h] at houtcome
      cases hread : (Section.read limits c).1 with
      | error e => rw [hread] at houtcome; cases houtcome
      | ok components => rw [hread] at houtcome; cases houtcome

/-- The components of which an attempt takes notice are those completed. -/
theorem filter_isCompletion_run (limits : Limits) (input : Input) :
    (input.run limits).notices.filter Notice.isCompletion =
      (input.completed limits).map Section.completed := by
  rcases input.run_cases limits with ⟨e, hbegin, -, hnotices⟩ |
    ⟨c, hbegin, htrail, hsound, hnotices, -⟩
  · simp [completed, hbegin, hnotices]
  · rw [hnotices, Section.filter_isCompletion_read limits htrail hsound]
    simp [completed, hbegin]

/-- **The components of a success are all that were completed.** -/
theorem eq_completed_of_outcome {limits : Limits} {input : Input} {components : List Component}
    (h : (input.run limits).outcome = .ok components) : components = input.completed limits := by
  rcases input.run_cases limits with ⟨e, -, houtcome, -⟩ | ⟨c, hbegin, -, -, -, houtcome⟩
  · cases houtcome.symm.trans h
  · rw [h] at houtcome
    simp only [completed, hbegin]
    split at houtcome
    · cases houtcome
    · cases hread : (Section.read limits c).1 with
      | error e => rw [hread] at houtcome; cases houtcome
      | ok found =>
        rw [hread] at houtcome
        rw [(Section.run_of_read_ok hread).1]
        exact Except.ok.inj houtcome

/-- **Components are completed in the order of their numbers.** -/
theorem map_id_completed (limits : Limits) (input : Input) :
    (input.completed limits).map Component.id = List.range (input.completed limits).length := by
  cases hbegin : input.begin? limits with
  | none => simp [completed, hbegin]
  | some c =>
    obtain ⟨d, hsince, -⟩ := Section.exists_since_run limits c
    simp only [completed, hbegin, List.length_reverse]
    exact hsince.ids

/-- **Each failing attempt is diagnosed exactly once.** Whatever there is to convert and whatever
the journal holds, the attempt adds events to it that diagnose the outcome. If components are to
be told of, these events tell of those completed before the end, each once and in the order of
their numbers, and otherwise of none. While a file is converted each event is told about the path
as it was given, once, and afterwards the journal goes back to the file it was at. -/
theorem diagnoses_report (limits : Limits) (input : Input) (p : Preferences) (timing : Timing)
    (j : Journal) :
    ((input.run limits).report p timing j).file = j.file ∧
      ∃ events, ((input.run limits).report p timing j).events = j.events ++ events ∧
        Diagnoses (input.completed limits) (input.run limits).outcome events ∧
        (input.completed limits).map Component.id =
          List.range (input.completed limits).length ∧
        events.filter (fun e => e.code = .componentRead) =
          (if p.reading.componentSummaries then
            (input.completed limits).map (fun c => c.summary.inFile (input.path?.or j.file))
          else []) ∧
        ∀ path ∈ input.path?, ∀ e ∈ events,
          e.context.entries.filter (fun entry => entry.1 = "file") = [("file", path)] := by
  obtain ⟨hevents, hfile⟩ := Run.report_eq (input.run limits) p timing j
  rw [path?_run] at hevents
  refine ⟨hfile, _, hevents, ?_, map_id_completed limits input, ?_, ?_⟩
  · exact (consistent_run limits input).diagnoses p timing _ fun _ => eq_completed_of_outcome
  · rw [Run.filter_componentRead_kept, filter_isCompletion_run, Section.events_map_completed]
    split
    · rw [List.map_map]
      rfl
    · rfl
  · intro path hpath e he
    obtain ⟨e', -, rfl⟩ := Journal.exists_of_mem_kept he
    rw [Option.mem_def] at hpath
    simp only [hpath]
    exact e'.filter_context_inFile path

/-- A stream with two faults: a vector is open when a byte comes that is no UTF-8. -/
def brokenVector : Input :=
  .stream ((encodeUtf8 "<ComponentName> a <AffineComponent> <BiasParams> [ 1\n".toList ++
    [255]).map .ok)

theorem diagnoses_report_brokenVector :
    (brokenVector.run .standard).outcome = .error (.stream 1 SourceLine.malformedText) ∧
      ∃ x, ((brokenVector.run .standard).report (.default fun _ => none) .zero {}).events.filter
          Event.isError = [x] ∧ x.code = .ioError := by
  have houtcome : (brokenVector.run .standard).outcome =
      .error (.stream 1 SourceLine.malformedText) := by decide +kernel
  obtain ⟨-, events, hevents, hdiagnoses, -⟩ :=
    diagnoses_report .standard brokenVector (.default fun _ => none) .zero {}
  rw [houtcome] at hdiagnoses
  cases hdiagnoses with
  | failure x only code => exact ⟨houtcome, x, by rw [hevents]; exact only, code⟩

end Input

end NnetText
