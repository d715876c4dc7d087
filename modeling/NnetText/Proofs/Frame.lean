import NnetText.Proofs.Tracking

/-!
# Text before and behind

A reader sees the line it is on and the lines still to come. What came before has left
nothing behind but the number of lines, and what comes after the last line of a text is
noticed only by a reader that gets there.

The comparison that says so is `Comparison.frame`. The cursors stand at the same place of
the same line; on the right there are `n` more lines before it, and the lines `behind`
after everything that is still to come on the left. It is lawful
(`Comparison.lawful_frame`), and the left text counts as cut short if there is a line to be
had behind. A line that cannot be decoded is none: to a reader it looks like the end.
-/

namespace NnetText

/-- **The right cursor stands in a larger text**: `n` lines are in front of what the left
one sees, and `behind` follows it. -/
structure Cursor.Framed (n : Nat) (behind : List SourceLine) (c d : Cursor) : Prop where
  place : d.place = c.place
  lineNumber : d.lineNumber = c.lineNumber + n
  pending : d.pending = c.pending ++ behind

namespace Comparison

/-- The comparison of a text with a larger one. -/
def frame (n : Nat) (behind : List SourceLine) : Comparison where
  rel := Cursor.Framed n behind
  ended := fun c d => d.place = c.place ∧ d.lineNumber = c.lineNumber + n
  left := Position.down n
  right := id
  cut := ∃ line rest, behind = .text line :: rest

end Comparison

namespace Cursor.Framed

variable {n : Nat} {behind : List SourceLine} {c d : Cursor}

theorem note (m m' : Notice) (h : Framed n behind c d) :
    Framed n behind (c.note m) (d.note m') :=
  ⟨h.place, h.lineNumber, h.pending⟩

theorem nextToken {c' : Cursor} {token : Option String} (h : Framed n behind c d)
    (hc : c.nextToken = (token, c')) :
    ∃ d', d.nextToken = (token, d') ∧ Framed n behind c' d' := by
  have htoken : c.nextToken.1 = d.nextToken.1 :=
    congrArg (fun place => place.nextToken.1) h.place.symm
  have hframe : Framed n behind c.nextToken.2 d.nextToken.2 :=
    ⟨congrArg (fun place => place.nextToken.2) h.place, h.lineNumber, h.pending⟩
  rw [hc] at htoken hframe
  exact ⟨d.nextToken.2, Prod.ext htoken.symm rfl, hframe⟩

theorem skipBlanks {c' : Cursor} {feed : Bool} (h : Framed n behind c d)
    (hc : c.skipBlanks = (feed, c')) :
    ∃ d', d.skipBlanks = (feed, d') ∧ Framed n behind c' d' := by
  have hfeed : c.skipBlanks.1 = d.skipBlanks.1 :=
    congrArg (fun place => place.skipBlanks.1) h.place.symm
  have hframe : Framed n behind c.skipBlanks.2 d.skipBlanks.2 :=
    ⟨congrArg (fun place => place.skipBlanks.2) h.place, h.lineNumber, h.pending⟩
  rw [hc] at hfeed hframe
  exact ⟨d.skipBlanks.2, Prod.ext hfeed.symm rfl, hframe⟩

/-- A line on the left is a line on the right. -/
theorem exists_advance {c' : Cursor} (h : Framed n behind c d) (hc : c.advance = (true, c')) :
    ∃ d', d.advance = (true, d') ∧ Framed n behind c' d' := by
  rcases advance_cases c with ⟨-, heq⟩ | ⟨line, rest, hp, heq⟩ | ⟨reason, rest, hp, heq⟩
  · simp [heq] at hc
  · obtain rfl := (Prod.mk.inj (heq.symm.trans hc)).2
    have hpending : d.pending = .text line :: (rest ++ behind) := by rw [h.pending, hp]; rfl
    refine ⟨_, advance_of_text hpending, rfl, ?_, rfl⟩
    simp only [h.lineNumber]
    omega
  · simp [heq] at hc

/-- Without a line on the left there is none on the right, or the right text goes on. -/
theorem exists_advance_false {c' : Cursor} (h : Framed n behind c d)
    (hc : c.advance = (false, c')) :
    (∃ d', d.advance = (false, d') ∧ d'.place = c'.place ∧
      d'.lineNumber = c'.lineNumber + n) ∨ ∃ line rest, behind = .text line :: rest := by
  rcases advance_cases c with ⟨hp, heq⟩ | ⟨line, rest, hp, heq⟩ | ⟨reason, rest, hp, heq⟩
  · obtain rfl := (Prod.mk.inj (heq.symm.trans hc)).2
    have hpending : d.pending = behind := by rw [h.pending, hp]; rfl
    -- the end of the left text, and of the right one unless a line can be had behind
    rcases behind with _ | ⟨line | _, rest⟩
    · exact Or.inl ⟨d, advance_of_nil hpending, h.place, h.lineNumber⟩
    · exact Or.inr ⟨line, rest, rfl⟩
    · exact Or.inl ⟨_, advance_of_failed hpending, h.place, h.lineNumber⟩
  · simp [heq] at hc
  · obtain rfl := (Prod.mk.inj (heq.symm.trans hc)).2
    have hpending : d.pending = .failed reason :: (rest ++ behind) := by rw [h.pending, hp]; rfl
    exact Or.inl ⟨_, advance_of_failed hpending, h.place, h.lineNumber⟩

end Cursor.Framed

namespace Comparison

theorem linewise_frame (n : Nat) (behind : List SourceLine) : (frame n behind).Linewise where
  ended_of_rel := fun h => ⟨h.place, h.lineNumber⟩
  note := fun m m' h => h.note m m'
  place := by
    rintro c d ⟨hplace, hline⟩
    simp [frame, Cursor.position, Cursor.offset, Position.down, hplace, hline]
  nextToken := fun h hc => h.nextToken hc
  skipBlanks := fun h hc => h.skipBlanks hc
  advance := fun h hc => h.exists_advance hc
  advance_false := fun h hc => h.exists_advance_false hc

theorem lawful_frame (n : Nat) (behind : List SourceLine) : (frame n behind).Lawful :=
  (linewise_frame n behind).lawful

end Comparison

/-- **Tokens are pulled alike**, as long as the left text has any. -/
theorem Cursor.Framed.pull {n : Nat} {behind : List SourceLine} {c d : Cursor}
    (h : Framed n behind c d) : (Comparison.frame n behind).Pulls c.pull d.pull :=
  (Comparison.linewise_frame n behind).pull h

/-! ### A text and its beginning -/

namespace Section

/-- A run over a text starts like a run over its first lines. -/
theorem tracks_start (limits : Limits) {text beginning : List Char} {behind : List SourceLine}
    (h : SourceLine.ofText text = SourceLine.ofText beginning ++ behind) :
    (Comparison.frame 0 behind).Tracks limits [] (.start (.ofText beginning))
      (.start (.ofText text)) :=
  ⟨rfl, rfl, ⟨rfl, rfl, h⟩, Nat.zero_le _⟩

/-- **What follows a text does not matter, unless reading gets there.** -/
theorem read_eq_or_isTruncation (limits : Limits) {text beginning : List Char}
    {behind : List SourceLine}
    (h : SourceLine.ofText text = SourceLine.ofText beginning ++ behind) :
    (read limits (.ofText text)).1 = (read limits (.ofText beginning)).1 ∨
      (ending limits beginning).cause.isTruncation = true := by
  have hends : (Comparison.frame 0 behind).Ends limits [] (ending limits beginning)
      (ending limits text) :=
    (tracks_start limits h).run (Comparison.lawful_frame 0 behind)
  rcases hends.reads with ⟨components, hb, ht⟩ | ⟨e, e', hb, ht, he⟩ | ⟨-, htruncated⟩
  · exact Or.inl (ht.trans hb.symm)
  · obtain rfl : e = e' := by simpa [Comparison.frame] using he
    exact Or.inl (ht.trans hb.symm)
  · exact Or.inr htruncated

end Section

end NnetText
