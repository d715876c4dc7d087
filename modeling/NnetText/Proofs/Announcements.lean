import NnetText.Proofs.Diagnosis

/-!
# What the end of a section announces

When a section has been read to its end, an event announces it, with the number of components. The
event belongs to the reader of the section, and the reader takes a line that cannot be read for
the end of the input; that the attempt has failed is found out one level up. So the announcement
goes with what the section reads as, and not always with what comes of the attempt.

What the reader notices of the end is known exactly: one notice if the section reads as components,
and none if it does not (`Section.filter_isEnding_read`). For a text and for a file the two levels
agree. For a stream that fails it is the lines in front of the bad one that count: their end is
announced just if they are a section by themselves (`Input.announces_report`), and an attempt may
well fail behind an announcement (`Input.announced_brokenOff`).
-/

namespace NnetText

/-- **The events announce a result**: components once, with their number, and a failure not at
all. -/
def Announces {ε : Type} (result : Except ε (List Component)) (events : List Event) : Prop :=
  match result with
  | .ok components => ∃ x, events.filter (fun e => e.code = .sectionRead) = [x] ∧
      x.context.get? "components" = some (toString components.length)
  | .error _ => events.filter (fun e => e.code = .sectionRead) = []

/-- It does not matter how a failure is worded. -/
theorem announces_mapError {ε ε' : Type} (f : ε → ε') (result : Except ε (List Component))
    (events : List Event) : Announces (result.mapError f) events ↔ Announces result events := by
  cases result with
  | error e => exact Iff.rfl
  | ok components => exact Iff.rfl

/-- What an event says of other things is left alone when it is told about a file. -/
theorem Event.get?_context_inFile (e : Event) (file : Option String) {key : String}
    (hkey : key ≠ "file") : (e.inFile file).context.get? key = e.context.get? key := by
  cases file with
  | none => rfl
  | some path =>
    change (e.context.insert "file" path).get? key = e.context.get? key
    rw [OrderedMap.get?_insert, if_neg hkey]

/-! ### The notice of the end -/

namespace Notice

/-- Whether a notice is about the end of a section. -/
def isEnding : Notice → Bool
  | sectionRead _ _ => true
  | unreadableLine _ | skippedTag _ _ _ | componentRead _ _ _ _ _ => false

/-- The end of a section has a code to itself. -/
theorem isEnding_of_event? {p : ReadingPreferences} {n : Notice} {e : Event}
    (h : event? p n = some e) : decide (e.code = .sectionRead) = n.isEnding := by
  cases n with
  | unreadableLine reason =>
    obtain rfl := Option.some.inj h
    rfl
  | skippedTag component tag place =>
    simp only [event?, Option.ite_none_right_eq_some, Option.some.injEq] at h
    obtain ⟨-, rfl⟩ := h
    rfl
  | componentRead id name typeTag attributes constants =>
    simp only [event?, Option.ite_none_right_eq_some, Option.some.injEq] at h
    obtain ⟨-, rfl⟩ := h
    rfl
  | sectionRead components lines =>
    obtain rfl := Option.some.inj h
    rfl

end Notice

namespace Section

/-- What is noticed of the end of a section that reads as a result. -/
def endings {ε : Type} (result : Except ε (List Component)) (lines : Nat) : List Notice :=
  match result with
  | .ok components => [.sectionRead components.length lines]
  | .error _ => []

/-- No end has been noticed before the run is over. -/
theorem filter_isEnding_run (limits : Limits) {c : Cursor} (htrail : c.trail = [])
    (hsound : c.failure = none) :
    ((Stage.start c).run limits).cursor.notices.filter Notice.isEnding = [] := by
  have hmilestone : ∀ n : Notice, n.isEnding = true → n.isMilestone = true := by
    intro n hn
    cases n <;> trivial
  rw [Cursor.notices, List.filter_reverse, ← filter_filter_of_imp hmilestone,
    ← Cursor.milestones, milestones_run limits htrail hsound, List.reverse_eq_nil_iff,
    List.filter_eq_nil_iff]
  intro n hn hending
  rcases List.mem_append.mp hn with hn | hn
  · obtain ⟨reason, -, rfl⟩ := List.mem_map.mp hn
    cases hending
  · obtain ⟨component, -, rfl⟩ := List.mem_map.mp hn
    cases hending

/-- **The end of a section is noticed once, if reading does not fail.** -/
theorem filter_isEnding_read (limits : Limits) {c : Cursor} (htrail : c.trail = [])
    (hsound : c.failure = none) :
    (read limits c).2.notices.filter Notice.isEnding =
      endings (read limits c).1 (read limits c).2.lineNumber := by
  have hrun := filter_isEnding_run limits htrail hsound
  have hclose : ∀ found : List Component,
      (close found ((Stage.start c).run limits).cursor).2.notices.filter Notice.isEnding =
        endings (close found ((Stage.start c).run limits).cursor).1
          ((Stage.start c).run limits).cursor.lineNumber := by
    intro found
    rw [close, Cursor.notices_note, List.filter_append, hrun, endings, List.length_reverse]
    rfl
  rw [lineNumber_read, read_eq_run, Stop.result]
  cases ((Stage.start c).run limits).cause with
  | failure e => exact hrun
  | inputEnd => exact hclose _
  | sectionEnd => exact hclose _

end Section

/-! ### Runs -/

namespace Run

theorem filter_sectionRead_closing (timing : Timing) (r : Run) :
    (closing timing r).filter (fun e => e.code = .sectionRead) = [] := by
  rcases closing_cases timing r with ⟨components, -, hclosing⟩ |
    ⟨e, x, -, -, hclosing, -, hcode, -⟩ | ⟨lines, reason, -, hclosing⟩
  · rw [hclosing]
    rfl
  · have he : decide (e.code = .sectionRead) = false := by
      rcases e with e | e | ⟨lines, reason⟩
      · cases e <;> rfl
      · cases e <;> rfl
      · rfl
    rw [hclosing, List.filter_singleton, hcode, he]
    rfl
  · rw [hclosing]
    rfl

/-- **The announcements of a run** are those of the ends it noticed. -/
theorem filter_sectionRead_kept (r : Run) (p : Preferences) (timing : Timing) (j : Journal) :
    (j.kept (remarks p timing r)).filter (fun e => e.code = .sectionRead) =
      (Notice.events p.reading (r.notices.filter Notice.isEnding)).map
        (fun e => e.inFile j.file) := by
  rw [Journal.filter_kept
      (fun e he => Journal.takes_of_code .sectionRead (of_decide_eq_true he) (by decide))
      (fun e => by rw [Event.code_inFile]),
    filter_remarks
      (fun e he => decide_eq_false (ne_of_mem_of_not_mem (code_of_mem_opening he).2 (by decide)))
      (fun n e => Notice.isEnding_of_event?),
    filter_sectionRead_closing, List.append_nil]

/-- A run that noticed the end of what a section reads as announces it. -/
theorem announces_kept {r : Run} {ε : Type} {result : Except ε (List Component)} {lines : Nat}
    (h : r.notices.filter Notice.isEnding = Section.endings result lines) (p : Preferences)
    (timing : Timing) (j : Journal) : Announces result (j.kept (remarks p timing r)) := by
  have hfilter := filter_sectionRead_kept r p timing j
  rw [h] at hfilter
  cases result with
  | error e => exact hfilter
  | ok components =>
    refine ⟨_, hfilter, ?_⟩
    rw [Event.get?_context_inFile _ _ (by decide)]
    rfl

end Run

/-! ### From the input to the announcement -/

namespace Input

variable {limits : Limits} {input : Input} {c : Cursor}

/-- **Only a stream fails while it is read**, and the section then reads like the text of the lines
before the bad one. -/
theorem exists_stream_of_failure {reason : String} (hbegin : input.begin? limits = some c)
    (hfailure : (Section.read limits c).2.failure = some reason) :
    ∃ deliveries text, input = .stream deliveries ∧
      decodeUtf8 (soundLines deliveries).flatten = some text ∧
      (Section.read limits c).1 = (Section.read limits (.ofText text)).1 := by
  have htext : ∀ text, c ≠ .ofText text := by
    rintro text rfl
    rw [Section.failure_read_ofText] at hfailure
    cases hfailure
  cases input with
  | text content => exact absurd (Option.some.inj hbegin).symm (htext content)
  | file path lookup =>
    obtain ⟨m, -, hm⟩ := Option.map_eq_some_iff.mp hbegin
    exact absurd hm.symm (htext m.text)
  | stream deliveries =>
    obtain rfl : Cursor.ofStream deliveries = c := Option.some.inj hbegin
    obtain ⟨text, hdecode, -, hlines⟩ := ofStream_cases deliveries
    refine ⟨deliveries, text, rfl, hdecode, ?_⟩
    rcases hlines with hlines | ⟨met, rest, hlines⟩
    · exact absurd (by rw [Cursor.ofStream, hlines, Cursor.ofText]) (htext text)
    · rw [Run.cursor_ofStream hlines]
      exact (Section.ends_failed limits text met rest).2

/-- **The end of a section is announced truthfully.** Whatever there is to convert, the events of
an attempt announce what came of it, unless the stream is what failed: a success once, with the
number of its components, and a failure not at all. If the stream failed, they announce what comes
of the text of its lines before the bad one. -/
theorem announces_report (limits : Limits) (input : Input) (p : Preferences) (timing : Timing)
    (j : Journal) :
    ∃ events, ((input.run limits).report p timing j).events = j.events ++ events ∧
      ((∀ lines reason, (input.run limits).outcome ≠ .error (.stream lines reason)) →
        Announces (input.run limits).outcome events) ∧
      ∀ lines reason, (input.run limits).outcome = .error (.stream lines reason) →
        ∃ deliveries text, input = .stream deliveries ∧
          decodeUtf8 (soundLines deliveries).flatten = some text ∧
          Announces (Run.ofText limits text).outcome events := by
  refine ⟨_, (Run.report_eq _ p timing j).1, ?_⟩
  rcases input.run_cases limits with ⟨e, -, houtcome, hnotices⟩ |
    ⟨c, hbegin, htrail, hsound, hnotices, houtcome⟩
  · -- a file that is not taken in: nothing was read
    have hnone : (input.run limits).notices.filter Notice.isEnding =
        Section.endings (.error (ConversionError.file e)) 0 := by
      rw [hnotices]
      rfl
    rw [houtcome]
    exact ⟨fun _ => Run.announces_kept hnone p timing _, by simp⟩
  · have hannounces := Run.announces_kept
      ((congrArg _ hnotices).trans (Section.filter_isEnding_read limits htrail hsound)) p timing
      { j with file := (input.run limits).source.path?.or j.file }
    cases hfailure : (Section.read limits c).2.failure with
    | none =>
      rw [hfailure] at houtcome
      rw [houtcome, announces_mapError]
      refine ⟨fun _ => hannounces, ?_⟩
      intro lines reason h
      cases hread : (Section.read limits c).1 with
      | error e => rw [hread] at h; cases h
      | ok components => rw [hread] at h; cases h
    | some met =>
      rw [hfailure] at houtcome
      refine ⟨fun h => absurd houtcome (h _ _), ?_⟩
      intro _ _ _
      obtain ⟨deliveries, text, hinput, hdecode, hread⟩ :=
        exists_stream_of_failure hbegin hfailure
      rw [hread] at hannounces
      exact ⟨deliveries, text, hinput, hdecode, (announces_mapError _ _ _).mpr hannounces⟩

/-- A stream that breaks off behind a component that is complete. -/
def brokenOff : Input :=
  .stream ((encodeUtf8 "<ComponentName> a <NoOpComponent> </NoOpComponent>\n".toList ++
    [255]).map .ok)

theorem announces_report_brokenOff :
    (brokenOff.run .standard).outcome = .error (.stream 1 SourceLine.malformedText) ∧
      ∃ deliveries text, brokenOff = .stream deliveries ∧
        decodeUtf8 (soundLines deliveries).flatten = some text ∧
        Announces (Run.ofText .standard text).outcome
          ((brokenOff.run .standard).report (.default fun _ => none) .zero {}).events := by
  have houtcome : (brokenOff.run .standard).outcome =
      .error (.stream 1 SourceLine.malformedText) := by decide +kernel
  obtain ⟨events, hevents, -, hstream⟩ :=
    announces_report .standard brokenOff (.default fun _ => none) .zero {}
  rw [hevents]
  exact ⟨houtcome, hstream 1 SourceLine.malformedText houtcome⟩

/-- **An attempt may fail behind an announcement.** -/
theorem announced_brokenOff :
    (brokenOff.run .standard).outcome = .error (.stream 1 SourceLine.malformedText) ∧
      ∃ e ∈ ((brokenOff.run .standard).report (.default fun _ => none) .zero {}).events,
        e.code = .sectionRead := by
  decide +kernel

end Input

end NnetText
