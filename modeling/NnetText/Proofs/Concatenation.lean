import Mathlib.Control.Monad.Basic
import NnetText.Proofs.Frame

/-!
# One text behind another

What two texts read as says what they read as one behind the other, if the first consists
of whole lines (`Section.read_append`). A reading that comes to the end of the first text
between two declarations goes on in the second as if it had begun there: nothing is left
over but the number of lines and the components found, by which places and numbers are
counted on. A reading that ends before the end of the first text never sees the second.

The run over both texts is followed twice. Over the first text it goes in step with the
run over that text alone, up to the place where the latter runs out of tokens. There the
cursor stands on a line without words, in front of the lines of the second text
(`Cursor.Framed.exists_seam`). From there it goes in step with the run over the second
text alone; the two meet at the first line that has a token (`Cursor.pull_of_blank`).
-/

namespace NnetText

namespace Cursor

/-! ### Counting lines -/

/-- The lines asked for and the lines to come are all there are. -/
theorem Moves.lineNumber_add_length {c d : Cursor} (h : c.Moves d) (hc : c.Readable) :
    d.lineNumber + d.pending.length = c.lineNumber + c.pending.length := by
  have hstep : ∀ e f : Cursor, Step e f →
      e.Readable ∧ e.lineNumber + e.pending.length = c.lineNumber + c.pending.length →
      f.Readable ∧ f.lineNumber + f.pending.length = c.lineNumber + c.pending.length := by
    rintro e f hef ⟨hreadable, heq⟩
    refine ⟨readable_of_step hef hreadable, ?_⟩
    cases hef with
    | token => exact heq
    | blanks => exact heq
    | note n => exact heq
    | line =>
      rcases advance_cases e with ⟨-, hadv⟩ | ⟨line, rest, hp, hadv⟩ | ⟨reason, rest, hp, -⟩
      · rwa [hadv]
      · rw [hadv]
        rw [hp, List.length_cons] at heq
        dsimp only
        omega
      · exact absurd (hp ▸ List.mem_cons_self) (hreadable reason)
  exact (h.of_step hstep ⟨hc, rfl⟩).2

/-! ### The seam -/

/-- **Where the first text has no more tokens, the second one begins.** -/
theorem Framed.exists_seam {n : Nat} {behind : List SourceLine} {c c' d : Cursor}
    (h : Framed n behind c d) (hc : c.Readable) (hpull : c.pull = (none, c')) :
    ∃ e : Cursor, d.pull = e.pull ∧ e.lineWords = [] ∧ e.pending = behind ∧
      e.lineNumber = c.lineNumber + c.pending.length + n := by
  fun_induction Cursor.pull c generalizing d with
  | case1 c token c₁ hc₁ => cases hpull
  | case2 c c₁ hc₁ c₂ hc₂ ih =>
    obtain ⟨d₁, hd₁, hframe⟩ := h.nextToken hc₁
    obtain ⟨d₂, hd₂, hframe'⟩ := hframe.exists_advance hc₂
    have hmoves := moves_of_advance hc₁ hc₂
    obtain ⟨e, he, hline, hpending, hnumber⟩ := ih hframe' (hmoves.readable hc) hpull
    rw [hmoves.lineNumber_add_length hc] at hnumber
    exact ⟨e, (pull_of_advance hd₁ hd₂).trans he, hline, hpending, hnumber⟩
  | case3 c c₁ hc₁ c₂ hc₂ =>
    -- no line is left of the first text, so the lines to come are those of the second
    have hpending : c.pending = [] := by
      rw [← pending_of_nextToken hc₁]
      rcases advance_cases c₁ with ⟨hp, -⟩ | ⟨line, rest, hp, heq⟩ | ⟨reason, rest, hp, -⟩
      · exact hp
      · simp [heq] at hc₂
      · exact absurd (pending_of_nextToken hc₁ ▸ hp ▸ List.mem_cons_self) (hc reason)
    obtain ⟨d₁, hd₁, -⟩ := h.nextToken hc₁
    refine ⟨d, rfl, (lineWords_eq_nil_of_nextToken hd₁).1, ?_, ?_⟩
    · rw [h.pending, hpending, List.nil_append]
    · rw [h.lineNumber, hpending]
      rfl

/-- **From lines without words, with the same lines to come, the same tokens are
pulled**, and the places agree from then on. -/
theorem pull_of_blank {n : Nat} {c d : Cursor} (hc : c.lineWords = []) (hd : d.lineWords = [])
    (hpending : d.pending = c.pending) (hnumber : d.lineNumber = c.lineNumber + n) :
    (∃ c' d', c.pull = (none, c') ∧ d.pull = (none, d')) ∨
      ∃ token c' d', c.pull = (some token, c') ∧ d.pull = (some token, d') ∧
        Framed n [] c' d' := by
  have hc₁ := nextToken_of_lineWords_nil hc
  have hd₁ := nextToken_of_lineWords_nil hd
  have hpc := pending_nextToken c
  have hpd : d.nextToken.2.pending = c.pending := hpending
  rcases hp : c.pending with _ | ⟨line | _, rest⟩
  · rw [hp] at hpc hpd
    exact Or.inl ⟨_, _, pull_of_advance_false hc₁ (advance_of_nil hpc),
      pull_of_advance_false hd₁ (advance_of_nil hpd)⟩
  · rw [hp] at hpc hpd
    rw [pull_of_advance hc₁ (advance_of_text hpc), pull_of_advance hd₁ (advance_of_text hpd)]
    -- both are at the beginning of the same line now
    have hframe : Framed n [] { c.nextToken.2 with
        pending := rest, place := .start line, lineNumber := c.nextToken.2.lineNumber + 1 }
        { d.nextToken.2 with
        pending := rest, place := .start line, lineNumber := d.nextToken.2.lineNumber + 1 } := by
      refine ⟨rfl, ?_, (List.append_nil rest).symm⟩
      change d.lineNumber + 1 = c.lineNumber + 1 + n
      omega
    have hpulls := hframe.pull
    generalize Cursor.pull _ = r at hpulls ⊢
    generalize Cursor.pull _ = r' at hpulls ⊢
    cases hpulls with
    | token h => exact Or.inr ⟨_, _, _, rfl, rfl, h⟩
    | none h => exact Or.inl ⟨_, _, rfl, rfl⟩
    | cut h => simp [Comparison.frame] at h
  · rw [hp] at hpc hpd
    exact Or.inl ⟨_, _, pull_of_advance_false hc₁ (advance_of_failed hpc),
      pull_of_advance_false hd₁ (advance_of_failed hpd)⟩

end Cursor

namespace Section

open Comparison (frame)

variable {limits : Limits} {a b : List Char}

/-! ### The two halves of the run -/

/-- **Up to the seam.** If the run over the first text ends with the input, the run over
both gets to where the second text begins, with the components of the first. -/
theorem exists_ending_append (ha : a = [] ∨ a.getLast? = some '\n') (b : List Char)
    (hend : (ending limits a).cause = .inputEnd) :
    ∃ e : Cursor, e.lineWords = [] ∧ e.pending = SourceLine.ofText b ∧
      e.lineNumber = (linesOf a).length ∧ (ending limits a).found.length ≤ limits.components ∧
      ending limits (a ++ b) = Stage.run limits ⟨(ending limits a).found, false, e⟩ := by
  obtain ⟨s, hs, hstop⟩ := exists_reaches_ending limits a
  obtain ⟨t, ht, htracks⟩ := (tracks_start limits (ofText_append ha b)).exists_reaches
    (Comparison.lawful_frame 0 _) hs
  have hmoves := Stage.moves_of_reaches hs
  have hreadable := hmoves.readable (Cursor.readable_ofText a)
  rcases Stage.step_eq_inr hstop with ⟨-, -, heq⟩ | ⟨-, -, _, _, -, heq⟩ |
    ⟨hclosed, c', hc, heq⟩ | ⟨-, _, -, heq⟩
  · rw [heq] at hend
    cases hend
  · rw [heq] at hend
    cases hend
  · obtain ⟨e, hpull, hline, hpending, hnumber⟩ := htracks.cursor.exists_seam hreadable hc
    have hfound : t.found = s.found := by simpa using htracks.found
    refine ⟨e, hline, hpending, ?_, ?_, ?_⟩
    · have hcount := hmoves.lineNumber_add_length (Cursor.readable_ofText a)
      rw [hnumber, hcount]
      simp [Stage.start, Cursor.ofText, ofText_eq_map_linesOf]
    · rw [heq, ← hfound]
      exact htracks.room
    · -- the next step of the run over both texts pulls a token, and so does one from the seam
      rw [ending, Stage.run_eq_of_reaches ht, heq, ← hfound]
      refine Stage.run_congr ?_
      simp [Stage.step, htracks.opened, hclosed, hpull]
  · rw [heq] at hend
    cases hend

/-- **From the seam.** A run that begins in front of the second text, with components from
before, goes on like the run over that text. -/
theorem ends_of_blank {earlier : List Component} {e : Cursor} (hline : e.lineWords = [])
    (hpending : e.pending = SourceLine.ofText b) (hroom : earlier.length ≤ limits.components) :
    (frame e.lineNumber []).Ends limits earlier (ending limits b)
      (Stage.run limits ⟨earlier, false, e⟩) := by
  have hblank : (Cursor.ofText b).lineWords = [] := words_nil
  have hroom' : ¬ limits.components < earlier.length + 0 := by omega
  -- the first step is made side by side, since the two lines without words may differ
  rcases Cursor.pull_of_blank hblank hline hpending (Nat.zero_add _).symm with
    ⟨c', e', hc, he⟩ | ⟨token, c', e', hc, he, hframe⟩
  · rw [ending, Stage.run_of_stop (Stage.step_of_inputEnd rfl hc),
      Stage.run_of_stop (Stage.step_of_inputEnd rfl he)]
    exact .same rfl rfl hroom'
  · by_cases htoken : token = Tag.sectionEnd
    · subst htoken
      rw [ending, Stage.run_of_stop (Stage.step_of_sectionEnd rfl hc),
        Stage.run_of_stop (Stage.step_of_sectionEnd rfl he)]
      exact .same rfl rfl hroom'
    · have ht : Stage.step limits ⟨earlier, false, e⟩ = _ := Stage.step_of_token rfl he htoken
      rw [ending, Stage.run_of_step (Stage.step_of_token rfl hc htoken), Stage.run_of_step ht]
      have htracks : (frame e.lineNumber []).Tracks limits earlier
          ⟨[], token == Tag.opener, c'⟩ ⟨earlier, token == Tag.opener, e'⟩ :=
        ⟨rfl, rfl, hframe, hroom⟩
      exact htracks.run (Comparison.lawful_frame _ _)

/-- **Both halves together.** -/
theorem ends_append (ha : a = [] ∨ a.getLast? = some '\n') (b : List Char)
    (hend : (ending limits a).cause = .inputEnd) :
    (frame (linesOf a).length []).Ends limits (ending limits a).found (ending limits b)
      (ending limits (a ++ b)) := by
  obtain ⟨e, hline, hpending, hnumber, hroom, heq⟩ := exists_ending_append ha b hend
  rw [heq, ← hnumber]
  exact ends_of_blank hline hpending hroom

/-! ### The readings -/

theorem read_append_of_ok (ha : a = [] ∨ a.getLast? = some '\n')
    (hend : (ending limits a).cause = .inputEnd)
    (hb : ∀ e, (ending limits b).cause ≠ .failure e) :
    (read limits (.ofText (a ++ b))).1 =
      if (ending limits a).found.length + (ending limits b).found.length ≤ limits.components then
        .ok ((ending limits a).found.reverse ++
          (ending limits b).found.reverse.map
            (Component.shiftId (ending limits a).found.length))
      else .error (.tooManyComponents limits.components) := by
  cases ends_append ha b hend with
  | cut h => simp [frame] at h
  | full hcause hfull =>
    rw [Stop.overflows_of_ne_failure hb] at hfull
    rw [ending_of_read_error.mpr hcause, if_neg (by omega)]
  | same hfound hcause hroom =>
    rw [Stop.overflows_of_ne_failure hb] at hroom
    rcases Cause.cases_of_mapPlace hcause with ⟨heq, hne⟩ | ⟨e, -, he, -⟩
    · rw [read_eq_ok (heq ▸ hne), hfound, if_pos (by omega)]
      simp
    · exact absurd he (hb e)

theorem read_append_of_error (ha : a = [] ∨ a.getLast? = some '\n')
    (hend : (ending limits a).cause = .inputEnd) {e : ParseError}
    (hb : (ending limits b).cause = .failure e) :
    (read limits (.ofText (a ++ b))).1 =
      if (ending limits a).found.length + (ending limits b).found.length < limits.components then
        .error (e.mapPlace (Position.down (linesOf a).length))
      else .error (.tooManyComponents limits.components) := by
  cases ends_append ha b hend with
  | cut h => simp [frame] at h
  | full hcause hfull =>
    rw [Stop.overflows_of_failure hb] at hfull
    rw [ending_of_read_error.mpr hcause, if_neg (by omega)]
  | same hfound hcause hroom =>
    rw [Stop.overflows_of_failure hb] at hroom
    rcases Cause.cases_of_mapPlace hcause with ⟨-, hne⟩ | ⟨e₁, e₂, he₁, he₂, heq⟩
    · exact absurd hb (hne e)
    · obtain rfl : e₁ = e := Cause.failure.inj (he₁.symm.trans hb)
      have heq' : e₁.mapPlace (Position.down (linesOf a).length) = e₂ := by
        simpa [frame] using heq
      rw [ending_of_read_error.mpr he₂, heq', if_pos (by omega)]

/-- **Reading composes.** Let the first text consist of whole lines.

If reading it comes to its end, the second text is read behind it as it is by itself: its
components follow those of the first, with their numbers counted on, or its error is
reported, with the lines counted on, as long as there is room for the components; if not,
there are too many. If reading the first text ends before its end, what follows does not
matter. -/
theorem read_append (limits : Limits) {a : List Char}
    (ha : a = [] ∨ a.getLast? = some '\n') (b : List Char) :
    (∀ ca, (read limits (.ofText a)).1 = .ok ca → (ending limits a).cause = .inputEnd →
      (∀ cb, (read limits (.ofText b)).1 = .ok cb →
        (read limits (.ofText (a ++ b))).1 =
          if ca.length + cb.length ≤ limits.components then
            .ok (ca ++ cb.map (Component.shiftId ca.length))
          else .error (.tooManyComponents limits.components)) ∧
      ∀ e, (read limits (.ofText b)).1 = .error e →
        (read limits (.ofText (a ++ b))).1 =
          if ca.length + (ending limits b).found.length < limits.components then
            .error (e.mapPlace (Position.down (linesOf a).length))
          else .error (.tooManyComponents limits.components)) ∧
    ((ending limits a).cause = .sectionEnd ∨
        (∃ e, (read limits (.ofText a)).1 = .error e ∧ e.isTruncation = false) →
      (read limits (.ofText (a ++ b))).1 = (read limits (.ofText a)).1) := by
  refine ⟨fun ca hca hend => ⟨fun cb hcb => ?_, fun e he => ?_⟩, fun hstop => ?_⟩
  · obtain ⟨rfl, -⟩ := ending_of_read_ok hca
    obtain ⟨rfl, hcause⟩ := ending_of_read_ok hcb
    have hb : ∀ e, (ending limits b).cause ≠ .failure e := by
      intro e he
      rw [ending_of_read_error.mpr he] at hcb
      cases hcb
    simpa using read_append_of_ok ha hend hb
  · obtain ⟨rfl, -⟩ := ending_of_read_ok hca
    simpa using read_append_of_error ha hend (ending_of_read_error.mp he)
  · refine (read_eq_or_isTruncation limits (ofText_append ha b)).resolve_right
      fun htruncated => ?_
    rcases hstop with hend | ⟨e, he, hne⟩
    · rw [hend] at htruncated
      cases htruncated
    · rw [ending_of_read_error.mp he] at htruncated
      exact absurd htruncated (by simp [Cause.isTruncation, hne])

/-- A declaration on a line of its own. -/
def lineOfDeclaration : List Char :=
  "<ComponentName> a <NoOpComponent> </NoOpComponent>\n".toList

/-- Another one, without a line feed behind it. -/
def endOfDeclarations : List Char :=
  "<ComponentName> b <NoOpComponent> <Dim> 4 </NoOpComponent>".toList

/-- One that cannot be read, with the fault on its second line. -/
def brokenDeclaration : List Char :=
  "<ComponentName> b <NoOpComponent>\n <Dim> four </NoOpComponent>".toList

theorem read_append_declarations :
    lineOfDeclaration.getLast? = some '\n' ∧
      (read .standard (.ofText (lineOfDeclaration ++ endOfDeclarations))).1 = .ok
        [{ id := 0, name := "a", kind := .generic, typeTag := "NoOpComponent", inputs := [] },
          { id := 1, name := "b", kind := .generic, typeTag := "NoOpComponent", inputs := [],
            dim := some 4 }] ∧
      (read .standard (.ofText (lineOfDeclaration ++ brokenDeclaration))).1 =
        .error (.invalidInteger "four" ⟨3, 11⟩ .invalidDigit) := by
  have hlast : lineOfDeclaration.getLast? = some '\n' := by decide +kernel
  have hfirst : (read .standard (.ofText lineOfDeclaration)).1 = .ok
      [{ id := 0, name := "a", kind := .generic, typeTag := "NoOpComponent", inputs := [] }] := by
    decide +kernel
  have hend : (ending .standard lineOfDeclaration).cause = .inputEnd := by decide +kernel
  have hsecond : (read .standard (.ofText endOfDeclarations)).1 = .ok
      [{ id := 0, name := "b", kind := .generic, typeTag := "NoOpComponent", inputs := [],
         dim := some 4 }] := by
    decide +kernel
  have hbroken : (read .standard (.ofText brokenDeclaration)).1 =
      .error (.invalidInteger "four" ⟨2, 11⟩ .invalidDigit) := by
    decide +kernel
  have hcount : (ending .standard brokenDeclaration).found.length = 0 := by decide +kernel
  have hok := ((read_append .standard (Or.inr hlast) endOfDeclarations).1 _ hfirst hend).1 _ hsecond
  have herror :=
    ((read_append .standard (Or.inr hlast) brokenDeclaration).1 _ hfirst hend).2 _ hbroken
  rw [if_pos (by decide)] at hok
  rw [hcount, if_pos (by decide)] at herror
  exact ⟨hlast, hok, herror⟩

end Section

end NnetText
