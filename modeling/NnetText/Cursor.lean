import NnetText.Notice
import NnetText.Token

/-!
# The cursor

Reading goes on line by line. The cursor holds the current line and the place reached in it, the
lines that are still to come and the trail of notices. A line that cannot be read does not become
the current one: asking for it fails, is remembered and noticed, and the line after it is the next
to be asked for.

A stream hands over bytes, and now and then it may fail instead. A line of it ends behind a line
feed or with a failure, in which case what was read of the line is lost. A line that was read is
still none if it cannot be decoded.

Tokens are taken from the current line by `Cursor.nextToken`, or from whatever line has one by
`Cursor.pull`. `Cursor.remaining` measures what is left of the input; no step makes it larger,
and each token taken and each line pulled makes it smaller. All readers end for this reason.
-/

namespace NnetText

/-- What a stream hands over when it is read on: a byte, or the words of a failure. -/
abbrev Delivery := Except String UInt8

namespace Delivery

/-- Whether a line ends with a delivery. -/
def endsLine : Delivery → Bool
  | .ok byte => byte == 10
  | .error _ => true

/-- The words of a failure. -/
def failure? : Delivery → Option String
  | .ok _ => none
  | .error reason => some reason

end Delivery

/-- A line as a source hands it over, with the line feed that ends it, or the reason why it cannot
be had. -/
inductive SourceLine where
  | text (line : List Char)
  | failed (reason : String)
deriving DecidableEq, Repr

namespace SourceLine

/-- The lines of a text. -/
def ofText (text : List Char) : List SourceLine :=
  (splitAfter (· == '\n') text).map .text

/-- What is wrong with a line that cannot be decoded. -/
def malformedText : String := "stream did not contain valid UTF-8"

/-- A line of bytes, decoded if possible. -/
def ofByteLine (bytes : List UInt8) : SourceLine :=
  match decodeUtf8 bytes with
  | some line => .text line
  | none => .failed malformedText

/-- A line of a stream, as it was handed over. -/
def ofDeliveries (line : List Delivery) : SourceLine :=
  match line.findSome? Delivery.failure? with
  | some reason => .failed reason
  | none => ofByteLine (line.filterMap Except.toOption)

/-- **The lines of a stream.** -/
def ofStream (stream : List Delivery) : List SourceLine :=
  (splitAfter Delivery.endsLine stream).map ofDeliveries

/-- What a line adds to the size of the input: its characters, and one for itself. -/
def size : SourceLine → Nat
  | text line => line.length + 1
  | failed _ => 1

end SourceLine

/-- A place in the input, with everything that is still to be read. -/
structure Cursor where
  /-- The lines that have not been asked for. -/
  pending : List SourceLine
  /-- The current line and the place reached in it. -/
  place : LinePlace := .start []
  /-- How many lines have been pulled. -/
  lineNumber : Nat := 0
  /-- Why the line that failed last could not be read, if one failed. -/
  failure : Option String := none
  /-- The trail, newest first. -/
  trail : List Notice := []
deriving DecidableEq, Repr

namespace Cursor

/-- The cursor in front of the first line of a text. -/
def ofText (text : List Char) : Cursor := { pending := SourceLine.ofText text }

/-- The cursor in front of the first line of a stream. -/
def ofStream (stream : List Delivery) : Cursor := { pending := SourceLine.ofStream stream }

/-- The cursor inside a line that has been read already. -/
def within (line : List Char) (offset : Nat) (pending : List SourceLine) : Cursor :=
  { pending, place := .ofOffset line offset, lineNumber := 1 }

/-- The current line. -/
def line (c : Cursor) : List Char := c.place.line

/-- The byte offset reached in the current line. -/
def offset (c : Cursor) : Nat := c.place.offset

/-- Where the cursor stands. -/
def position (c : Cursor) : Position := ⟨c.lineNumber, c.offset⟩

/-- What was noticed on the way, in the order in which it was. -/
def notices (c : Cursor) : List Notice := c.trail.reverse

/-- The cursor with one more notice in its trail. -/
def note (c : Cursor) (n : Notice) : Cursor := { c with trail := n :: c.trail }

/-- A notice goes behind those made before it. -/
theorem notices_note (c : Cursor) (n : Notice) : (c.note n).notices = c.notices ++ [n] := by
  simp [notices, note]

/-- The next token of the current line. -/
def nextToken (c : Cursor) : Option String × Cursor :=
  let step := c.place.nextToken
  (step.1, { c with place := step.2 })

/-- Passes over blanks in the current line and says whether a line feed was among them. -/
def skipBlanks (c : Cursor) : Bool × Cursor :=
  let step := c.place.skipBlanks
  (step.1, { c with place := step.2 })

/-- Makes the next line the current one. This fails at the end of the input and at a line that
cannot be read. -/
def advance (c : Cursor) : Bool × Cursor :=
  match c.pending with
  | [] => (false, c)
  | .text line :: rest =>
    (true, { c with pending := rest, place := .start line, lineNumber := c.lineNumber + 1 })
  | .failed reason :: rest =>
    (false, { c with pending := rest, failure := some reason }.note (.unreadableLine reason))

/-! ### What is left of the input -/

/-- The size of the lines still to come. -/
def pendingSize (lines : List SourceLine) : Nat :=
  lines.foldr (fun l n => l.size + n) 0

/-- The size of what is left: the rest of the current line and the lines still to come. -/
def remaining (c : Cursor) : Nat :=
  c.place.unread + pendingSize c.pending

theorem remaining_note (c : Cursor) (n : Notice) : (c.note n).remaining = c.remaining := rfl

theorem remaining_nextToken_le (c : Cursor) : c.nextToken.2.remaining ≤ c.remaining :=
  Nat.add_le_add_right c.place.unread_nextToken_le _

theorem remaining_nextToken_lt {c d : Cursor} {token : String}
    (h : c.nextToken = (some token, d)) : d.remaining < c.remaining := by
  have ht : c.place.nextToken.1 = some token := congrArg Prod.fst h
  obtain rfl : c.nextToken.2 = d := congrArg Prod.snd h
  exact Nat.add_lt_add_right (LinePlace.unread_nextToken_lt ht) _

theorem remaining_le_of_nextToken {c d : Cursor} {token : Option String}
    (h : c.nextToken = (token, d)) : d.remaining ≤ c.remaining := by
  simpa [h] using remaining_nextToken_le c

theorem remaining_skipBlanks_le (c : Cursor) : c.skipBlanks.2.remaining ≤ c.remaining :=
  Nat.add_le_add_right c.place.unread_skipBlanks_le _

theorem pending_nextToken (c : Cursor) : c.nextToken.2.pending = c.pending := rfl

/-- A line that is pulled is no longer among those to come. -/
theorem length_pending_advance_lt {c d : Cursor} (h : c.advance = (true, d)) :
    d.pending.length < c.pending.length := by
  unfold advance at h
  split at h
  · simp at h
  · rename_i hp
    obtain rfl := congrArg Prod.snd h
    simp [hp]
  · simp at h

theorem remaining_advance_lt {c d : Cursor} (h : c.advance = (true, d)) :
    d.remaining < c.remaining := by
  unfold advance at h
  split at h
  · simp at h
  · rename_i line rest hp
    obtain rfl := congrArg Prod.snd h
    simp only [remaining, LinePlace.unread_start, hp, pendingSize, List.foldr_cons,
      SourceLine.size]
    omega
  · simp at h

theorem remaining_advance_le (c : Cursor) : c.advance.2.remaining ≤ c.remaining := by
  unfold advance
  split
  · exact Nat.le_refl _
  · rename_i line rest hp
    exact Nat.le_of_lt (remaining_advance_lt (c := c) (by simp [advance, hp]))
  · rename_i reason rest hp
    simp only [remaining, note, hp, pendingSize, List.foldr_cons]
    omega

/-! ### Tokens across lines -/

/-- **The next token**, from the current line or the first later line that has one. There is
none at the end of the input, nor before a line that cannot be read. -/
def pull (c : Cursor) : Option String × Cursor :=
  match _hd : c.nextToken with
  | (some token, d) => (some token, d)
  | (none, d) =>
    match _he : d.advance with
    | (true, e) => pull e
    | (false, e) => (none, e)
termination_by c.pending.length
decreasing_by
  have hlt := length_pending_advance_lt _he
  have hp := pending_nextToken c
  rw [_hd] at hp
  rwa [hp] at hlt

theorem remaining_pull_lt {c d : Cursor} {token : String} (h : c.pull = (some token, d)) :
    d.remaining < c.remaining := by
  fun_induction pull c with
  | case1 c token' d' hd =>
    cases h
    exact remaining_nextToken_lt hd
  | case2 c d' hd e he ih =>
    have h₁ := remaining_nextToken_le c
    have h₂ := remaining_advance_lt he
    rw [hd] at h₁
    have h₃ := ih h
    simp only at h₁
    omega
  | case3 c d' hd e he => simp at h

theorem remaining_pull_le (c : Cursor) : c.pull.2.remaining ≤ c.remaining := by
  fun_induction pull c with
  | case1 c token d hd => exact Nat.le_of_lt (remaining_nextToken_lt hd)
  | case2 c d hd e he ih =>
    have h₁ := remaining_nextToken_le c
    have h₂ := remaining_advance_lt he
    rw [hd] at h₁
    simp only at h₁
    omega
  | case3 c d hd e he =>
    have h₁ := remaining_nextToken_le c
    have h₂ := remaining_advance_le d
    rw [hd] at h₁
    rw [he] at h₂
    simp only at h₁ h₂ ⊢
    omega

theorem remaining_le_of_pull {c d : Cursor} {token : Option String} (h : c.pull = (token, d)) :
    d.remaining ≤ c.remaining := by
  simpa [h] using remaining_pull_le c

end Cursor

end NnetText
