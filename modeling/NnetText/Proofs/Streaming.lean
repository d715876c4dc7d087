import NnetText.Conversion
import NnetText.Proofs.Encoding
import NnetText.Proofs.Frame
import NnetText.Proofs.Passage

/-!
# Streams and texts

A stream is decoded line by line while it is read, a text is decoded beforehand. If all lines of
the stream can be read the two are one and the same. If not, the stream holds a text and, behind
it, a line that cannot be read (`NnetText.ofStream_cases`), and all depends on whether reading that
text asks for a line past its end (`Section.AsksBeyond`).

Whether it does can be seen from the text alone: it does if and only if reading the text ends for
want of input (`Section.asksBeyond_iff`). For a reader takes the bad line for the end, so that it
goes the same way with it and without it (`Section.ends_failed`), and it asks in vain only then
(`Section.run_failed_cases`).
-/

namespace NnetText

/-- The lines before the first that cannot be read, and why it cannot, are told by all lines. -/
theorem map_text_append_failed_inj {as bs : List (List Char)} {p q : String}
    {r s : List SourceLine}
    (h : as.map SourceLine.text ++ .failed p :: r = bs.map .text ++ .failed q :: s) :
    as = bs ∧ p = q := by
  induction as generalizing bs with
  | nil =>
    cases bs with
    | nil =>
      obtain ⟨hline, -⟩ := List.cons.inj h
      exact ⟨rfl, SourceLine.failed.inj hline⟩
    | cons b bs => simp at h
  | cons a as ih =>
    cases bs with
    | nil => simp at h
    | cons b bs =>
      simp only [List.map_cons, List.cons_append, List.cons.injEq, SourceLine.text.injEq] at h
      obtain ⟨rfl, hreason⟩ := ih h.2
      exact ⟨by rw [h.1], hreason⟩

namespace Section

/-- The cursor in front of a text with a line behind it that cannot be read. -/
def beforeFailed (text : List Char) (reason : String) (rest : List SourceLine) : Cursor :=
  { pending := SourceLine.ofText text ++ .failed reason :: rest }

/-- **Reading a text asks for a line past its end**: a line put there that cannot be read is met,
whatever is wrong with it. -/
def AsksBeyond (limits : Limits) (text : List Char) : Prop :=
  ∀ reason, (read limits (beforeFailed text reason [])).2.failure = some reason

theorem failure_read (limits : Limits) (c : Cursor) :
    (read limits c).2.failure = ((Stage.start c).run limits).cursor.failure := by
  rw [read_eq_run, Stop.result]
  cases ((Stage.start c).run limits).cause <;> rfl

theorem lineNumber_read (limits : Limits) (c : Cursor) :
    (read limits c).2.lineNumber = ((Stage.start c).run limits).cursor.lineNumber := by
  rw [read_eq_run, Stop.result]
  cases ((Stage.start c).run limits).cause <;> rfl

/-- No line of a text fails. -/
theorem failure_read_ofText (limits : Limits) (text : List Char) :
    (read limits (.ofText text)).2.failure = none := by
  obtain ⟨d, hsince, hend⟩ := exists_since_run limits (.ofText text)
  obtain ⟨taken, hpending, -⟩ := hsince.takes
  rw [failure_read]
  rcases hend with ⟨-, hcursor⟩ | ⟨-, hadvance⟩
  · rw [hcursor]
    exact hsince.failure
  · rcases Cursor.advance_cases d with ⟨-, heq⟩ | ⟨line, rest, -, heq⟩ | ⟨reason, rest, hp, -⟩
    · rw [← (Prod.mk.inj (heq.symm.trans hadvance)).2]
      exact hsince.failure
    · cases heq.symm.trans hadvance
    · have hmem : SourceLine.failed reason ∈ (Cursor.ofText text).pending := by
        rw [hpending, hp]
        simp
      exact absurd hmem (failed_not_mem_ofText reason text)

theorem unreadableLine_mem_notices_read {limits : Limits} {c : Cursor} {reason : String} :
    .unreadableLine reason ∈ (read limits c).2.notices ↔
      .unreadableLine reason ∈ ((Stage.start c).run limits).cursor.trail := by
  rw [read_eq_run, Stop.result, Cursor.notices, List.mem_reverse]
  cases ((Stage.start c).run limits).cause <;> simp [close, Cursor.note]

/-! ### In front of a line that cannot be read -/

/-- **A run in front of such a line** meets it and ends for want of input, or does neither. -/
theorem run_failed_cases (limits : Limits) (text : List Char) (reason : String)
    (rest : List SourceLine) :
    (((Stage.start (beforeFailed text reason rest)).run limits).cause.isTruncation = false ∧
      ((Stage.start (beforeFailed text reason rest)).run limits).cursor.failure = none ∧
      ∀ told, .unreadableLine told ∉
        ((Stage.start (beforeFailed text reason rest)).run limits).cursor.trail) ∨
    (((Stage.start (beforeFailed text reason rest)).run limits).cause.isTruncation = true ∧
      ((Stage.start (beforeFailed text reason rest)).run limits).cursor.failure = some reason ∧
      ((Stage.start (beforeFailed text reason rest)).run limits).cursor.lineNumber =
        (linesOf text).length) := by
  obtain ⟨d, hsince, hend⟩ := exists_since_run limits (beforeFailed text reason rest)
  obtain ⟨taken, hpending, hnumber⟩ := hsince.takes
  generalize (Stage.start (beforeFailed text reason rest)).run limits = stop at *
  rcases hend with ⟨hcause, rfl⟩ | ⟨hcause, hadvance⟩
  · refine Or.inl ⟨hcause, hsince.failure, ?_⟩
    intro told hmem
    have hmilestone : .unreadableLine told ∈ stop.cursor.milestones :=
      List.mem_filter.mpr ⟨hmem, rfl⟩
    rw [hsince.milestones] at hmilestone
    simp [Cursor.milestones, beforeFailed, completed] at hmilestone
  · refine Or.inr ⟨hcause, ?_⟩
    rw [beforeFailed, ofText_eq_map_linesOf] at hpending
    rcases Cursor.advance_cases d with
      ⟨hp, -⟩ | ⟨line, rest', hp, heq⟩ | ⟨reason', rest', hp, heq⟩
    · -- the bad line is still ahead, so that this is not the end
      have hmem : SourceLine.failed reason ∈ taken.map SourceLine.text ++ d.pending := by
        rw [← hpending]
        simp
      simp [hp] at hmem
    · cases heq.symm.trans hadvance
    · have hcursor := (Prod.mk.inj (heq.symm.trans hadvance)).2
      rw [hp] at hpending
      obtain ⟨hlines, rfl⟩ := map_text_append_failed_inj hpending
      rw [← hcursor]
      refine ⟨rfl, ?_⟩
      have hcount : d.lineNumber = taken.length := by simpa [beforeFailed] using hnumber
      rw [hlines]
      exact hcount

/-- A run in front of such a line ends like a run over the text alone. -/
theorem ends_failed (limits : Limits) (text : List Char) (reason : String)
    (rest : List SourceLine) :
    ((Stage.start (beforeFailed text reason rest)).run limits).cause =
        (ending limits text).cause ∧
      (read limits (beforeFailed text reason rest)).1 = (read limits (.ofText text)).1 := by
  have hends : (Comparison.frame 0 (.failed reason :: rest)).Ends limits [] (ending limits text)
      ((Stage.start (beforeFailed text reason rest)).run limits) :=
    Comparison.Tracks.run (Comparison.lawful_frame 0 _) ⟨rfl, rfl, ⟨rfl, rfl, rfl⟩, Nat.zero_le _⟩
  rw [read_ofText, read_eq_run, Stop.result, Stop.result]
  cases hends with
  | cut h _ => simp [Comparison.frame] at h
  | full hcause hfull =>
    have hcause' : (ending limits text).cause = .failure (.tooManyComponents limits.components) :=
      Stage.cause_of_overflows (Nat.zero_le _) hfull
    rw [hcause, hcause']
    exact ⟨rfl, rfl⟩
  | same hfound hcause _ =>
    have hfound' : ((Stage.start (beforeFailed text reason rest)).run limits).found =
        (ending limits text).found := by simpa using hfound
    rcases Cause.cases_of_mapPlace hcause with ⟨heq, -⟩ | ⟨e, e', h, h', he⟩
    · rw [← heq, hfound']
      refine ⟨rfl, ?_⟩
      cases (ending limits text).cause <;> rfl
    · obtain rfl : e = e' := by simpa [Comparison.frame] using he
      rw [h, h']
      exact ⟨rfl, rfl⟩

/-- **Reading asks for more if and only if it ends for want of input.** -/
theorem asksBeyond_iff {limits : Limits} {text : List Char} :
    AsksBeyond limits text ↔ (ending limits text).cause.isTruncation = true := by
  have hmet (reason : String) : (read limits (beforeFailed text reason [])).2.failure =
      some reason ↔ (ending limits text).cause.isTruncation = true := by
    rw [failure_read, ← (ends_failed limits text reason []).1]
    rcases run_failed_cases limits text reason [] with
      ⟨hcause, hfailure, -⟩ | ⟨hcause, hfailure, -⟩
    · simp [hcause, hfailure]
    · simp [hcause, hfailure]
  rw [AsksBeyond, forall_congr' hmet, forall_const]

end Section

/-! ### Streams -/

namespace Run

open Section

variable {limits : Limits} {stream : List Delivery} {text : List Char} {reason : String}
  {rest : List SourceLine}

/-- **A stream of which all lines can be read is converted like its text.** -/
theorem ofStream_of_lines (limits : Limits)
    (h : SourceLine.ofStream stream = SourceLine.ofText text) :
    ofStream limits stream = { ofText limits text with source := .stream } := by
  have hcursor : Cursor.ofStream stream = Cursor.ofText text := by
    rw [Cursor.ofStream, h, Cursor.ofText]
  simp only [ofStream, hcursor, failure_read_ofText]
  rfl

/-- **A stream that is UTF-8 is converted like its text.** -/
theorem ofBytes_of_decodeUtf8 (limits : Limits) {bytes : List UInt8}
    (h : decodeUtf8 bytes = some text) :
    ofBytes limits bytes = { ofText limits text with source := .stream } := by
  refine ofStream_of_lines limits ?_
  rw [decodeUtf8_eq_some_iff.mp h, ofStream_encodeUtf8]

theorem cursor_ofStream
    (h : SourceLine.ofStream stream = SourceLine.ofText text ++ .failed reason :: rest) :
    Cursor.ofStream stream = beforeFailed text reason rest := by
  rw [Cursor.ofStream, h, beforeFailed]

/-- **A bad line that is asked for is the cause of failure**, whatever reading made of it. -/
theorem outcome_of_asksBeyond
    (h : SourceLine.ofStream stream = SourceLine.ofText text ++ .failed reason :: rest)
    (hasks : AsksBeyond limits text) :
    (ofStream limits stream).outcome = .error (.stream (linesOf text).length reason) := by
  rw [asksBeyond_iff, ← (ends_failed limits text reason rest).1] at hasks
  rcases run_failed_cases limits text reason rest with ⟨hcause, -⟩ | ⟨-, hfailure, hnumber⟩
  · rw [hcause] at hasks
    cases hasks
  · rw [← failure_read] at hfailure
    rw [← lineNumber_read] at hnumber
    simp only [ofStream, cursor_ofStream h, hfailure, hnumber]

/-- **A bad line that is not asked for does not matter.** -/
theorem outcome_of_not_asksBeyond
    (h : SourceLine.ofStream stream = SourceLine.ofText text ++ .failed reason :: rest)
    (hasks : ¬ AsksBeyond limits text) :
    (ofStream limits stream).outcome = (ofText limits text).outcome ∧
      ∀ told, .unreadableLine told ∉ (ofStream limits stream).notices := by
  obtain ⟨hcause, hread⟩ := ends_failed limits text reason rest
  rw [asksBeyond_iff, ← hcause] at hasks
  rcases run_failed_cases limits text reason rest with ⟨-, hfailure, htrail⟩ | ⟨htruncated, -⟩
  · rw [← failure_read] at hfailure
    simp only [ofStream, cursor_ofStream h, hfailure]
    refine ⟨?_, ?_⟩
    · simp only [ofText, ofReading, hread]
    · exact fun told hmem => htrail told (unreadableLine_mem_notices_read.mp hmem)
  · exact absurd htruncated hasks

/-- **Streaming agrees with converting in memory, on all bytes.** Bytes that are UTF-8 are
converted like their text. Otherwise let the text be that of the lines before the first bad one.
If reading it asks for a line past its end, the stream fails behind these lines, whatever was read;
if it does not, the stream is converted like that text, and nothing is said of the bad line. -/
theorem outcome_ofBytes (limits : Limits) (bytes : List UInt8) :
    (∀ text, decodeUtf8 bytes = some text →
      ofBytes limits bytes = { ofText limits text with source := .stream }) ∧
    (decodeUtf8 bytes = none →
      ∃ text, decodeUtf8 (readableLines bytes).flatten = some text ∧
        (AsksBeyond limits text ↔ (ending limits text).cause.isTruncation = true) ∧
        (AsksBeyond limits text → (ofBytes limits bytes).outcome =
          .error (.stream (readableLines bytes).length SourceLine.malformedText)) ∧
        (¬ AsksBeyond limits text →
          (ofBytes limits bytes).outcome = (ofText limits text).outcome ∧
            ∀ told, .unreadableLine told ∉ (ofBytes limits bytes).notices)) := by
  refine ⟨fun text h => ofBytes_of_decodeUtf8 limits h, fun hnone => ?_⟩
  obtain ⟨text, htext, hlength, hlines⟩ := ofBytes_cases bytes
  rcases hlines with ⟨hsome, -⟩ | ⟨-, rest, hrest⟩
  · cases hnone.symm.trans hsome
  · refine ⟨text, htext, asksBeyond_iff, fun hasks => ?_, fun hasks => ?_⟩
    · rw [← hlength]
      exact outcome_of_asksBeyond hrest hasks
    · exact outcome_of_not_asksBeyond hrest hasks

/-- A stream that breaks off inside a declaration, at a byte that is no UTF-8. -/
def brokenStream : List UInt8 :=
  encodeUtf8 "<ComponentName> a <AffineComponent>\n".toList ++ [255]

theorem outcome_ofBytes_brokenStream :
    decodeUtf8 brokenStream = none ∧
      ∃ text, decodeUtf8 (readableLines brokenStream).flatten = some text ∧
        (AsksBeyond .standard text ↔ (ending .standard text).cause.isTruncation = true) ∧
        (AsksBeyond .standard text → (ofBytes .standard brokenStream).outcome =
          .error (.stream (readableLines brokenStream).length SourceLine.malformedText)) ∧
        (¬ AsksBeyond .standard text →
          (ofBytes .standard brokenStream).outcome = (ofText .standard text).outcome ∧
            ∀ told, .unreadableLine told ∉ (ofBytes .standard brokenStream).notices) := by
  have hnone : decodeUtf8 brokenStream = none := by decide +kernel
  exact ⟨hnone, (outcome_ofBytes .standard brokenStream).2 hnone⟩

end Run

end NnetText
