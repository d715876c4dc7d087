import NnetText.Text.Blank
import NnetText.Text.Bytes

/-!
# Tokens

A token is a maximal run of characters that are not blank. Tokens are taken from a line one at
a time, at a byte offset, and each step says where the next one may start. An offset that is no
place in the line yields nothing and stays what it is.

A `LinePlace` keeps what is left of its line at hand, so that a step costs no more than the
characters it passes. That this is what stands at the offset is part of the type, and
`LinePlace.skip` is the one way to move on. `LinePlace.unread` measures what is left: taking a
token makes it smaller (`LinePlace.unread_nextToken_lt`) and no step makes it larger, which is
why every loop over tokens ends.
-/

namespace NnetText

/-- A byte offset in a line, and what is left of the line from there on if that is a place
in it. -/
structure LinePlace where
  line : List Char
  offset : Nat
  rest : Option (List Char)
  rest_eq : rest = suffixAt line offset
deriving DecidableEq, Repr

namespace LinePlace

/-- The place at an offset. -/
def ofOffset (line : List Char) (offset : Nat) : LinePlace :=
  ⟨line, offset, suffixAt line offset, rfl⟩

/-- The place at the beginning of a line. -/
def start (line : List Char) : LinePlace := ⟨line, 0, some line, (suffixAt_zero line).symm⟩

/-- A place is determined by its line and its offset. -/
theorem ofOffset_line_offset (p : LinePlace) : ofOffset p.line p.offset = p := by
  obtain ⟨line, offset, rest, h⟩ := p
  simp [ofOffset, h]

/-- Moves over the beginning of what is left. -/
def skip (p : LinePlace) (passed left : List Char) (h : p.rest = some (passed ++ left)) :
    LinePlace where
  line := p.line
  offset := p.offset + byteSize passed
  rest := some left
  rest_eq := by
    rw [suffixAt_add (p.rest_eq.symm.trans h), suffixAt_append]

/-! ### Steps -/

/-- The blanks at the beginning of a text. -/
def blanksOf (cs : List Char) : List Char := cs.takeWhile isBlank

/-- The token behind the blanks at the beginning of a text; it is empty if there is none. -/
def tokenOf (cs : List Char) : List Char :=
  (cs.dropWhile isBlank).takeWhile (fun c => !isBlank c)

/-- What stands behind the token. -/
def behindToken (cs : List Char) : List Char :=
  (cs.dropWhile isBlank).dropWhile (fun c => !isBlank c)

/-- Blanks, token and what stands behind it are the whole text. -/
theorem blanksOf_tokenOf_behindToken (cs : List Char) :
    blanksOf cs ++ tokenOf cs ++ behindToken cs = cs := by
  rw [blanksOf, tokenOf, behindToken, List.append_assoc, List.takeWhile_append_dropWhile,
    List.takeWhile_append_dropWhile]

/-- **The next token**, and the place just behind it. Without a token the place is the end of
the line, or the place given if that is none. -/
def nextToken (p : LinePlace) : Option String × LinePlace :=
  match h : p.rest with
  | none => (none, p)
  | some rest =>
    let token := tokenOf rest
    (if token.isEmpty then none else some (String.ofList token),
      p.skip (blanksOf rest ++ token) (behindToken rest)
        (by rw [h, blanksOf_tokenOf_behindToken]))

/-- The place of the next character that is not blank, or the end of the line, and whether a
line feed was passed on the way there. -/
def skipBlanks (p : LinePlace) : Bool × LinePlace :=
  match h : p.rest with
  | none => (false, p)
  | some rest =>
    let blanks := blanksOf rest
    (blanks.contains '\n',
      p.skip blanks (rest.dropWhile isBlank)
        (by rw [h]; exact congrArg some List.takeWhile_append_dropWhile.symm))

/-! ### What the steps leave -/

/-- The number of characters that are left. -/
def unread (p : LinePlace) : Nat := (p.rest.map List.length).getD 0

@[simp] theorem unread_start (line : List Char) : (start line).unread = line.length := rfl

theorem nextToken_of_rest_none {p : LinePlace} (h : p.rest = none) : p.nextToken = (none, p) := by
  unfold nextToken
  split
  · rfl
  · simp_all

/-- Behind the blanks and the token stands what is left of the line. -/
theorem rest_nextToken {p : LinePlace} {rest : List Char} (h : p.rest = some rest) :
    p.nextToken.2.rest = some (behindToken rest) := by
  unfold nextToken
  split
  · simp_all
  · rename_i rest' h'
    obtain rfl : rest' = rest := by simpa [h'] using h
    rfl

theorem fst_nextToken {p : LinePlace} {rest : List Char} (h : p.rest = some rest) :
    p.nextToken.1 =
      if (tokenOf rest).isEmpty then none else some (String.ofList (tokenOf rest)) := by
  unfold nextToken
  split
  · simp_all
  · rename_i rest' h'
    obtain rfl : rest' = rest := by simpa [h'] using h
    rfl

theorem offset_nextToken {p : LinePlace} {rest : List Char} (h : p.rest = some rest) :
    p.nextToken.2.offset = p.offset + byteSize (blanksOf rest ++ tokenOf rest) := by
  unfold nextToken
  split
  · simp_all
  · rename_i rest' h'
    obtain rfl : rest' = rest := by simpa [h'] using h
    rfl

theorem line_nextToken (p : LinePlace) : p.nextToken.2.line = p.line := by
  unfold nextToken
  split <;> rfl

theorem unread_nextToken_le (p : LinePlace) : p.nextToken.2.unread ≤ p.unread := by
  cases h : p.rest with
  | none => simp [nextToken_of_rest_none h]
  | some rest =>
    have hlen := congrArg List.length (blanksOf_tokenOf_behindToken rest)
    simp only [List.length_append] at hlen
    simp only [unread, rest_nextToken h, h, Option.map_some, Option.getD_some]
    omega

/-- **Taking a token shortens the line.** -/
theorem unread_nextToken_lt {p : LinePlace} {token : String}
    (ht : p.nextToken.1 = some token) : p.nextToken.2.unread < p.unread := by
  cases h : p.rest with
  | none => simp [nextToken_of_rest_none h] at ht
  | some rest =>
    have hpos : tokenOf rest ≠ [] := by
      intro hnil
      simp [fst_nextToken h, hnil] at ht
    have hlen := congrArg List.length (blanksOf_tokenOf_behindToken rest)
    have := List.length_pos_iff.2 hpos
    simp only [List.length_append] at hlen
    simp only [unread, rest_nextToken h, h, Option.map_some, Option.getD_some]
    omega

theorem skipBlanks_of_rest_none {p : LinePlace} (h : p.rest = none) :
    p.skipBlanks = (false, p) := by
  unfold skipBlanks
  split
  · rfl
  · simp_all

/-- Blanks are passed over up to the next character of the line. -/
theorem skipBlanks_of_rest {p : LinePlace} {rest : List Char} (h : p.rest = some rest) :
    p.skipBlanks = ((blanksOf rest).contains '\n',
      p.skip (blanksOf rest) (rest.dropWhile isBlank)
        (h.trans (congrArg some List.takeWhile_append_dropWhile.symm))) := by
  unfold skipBlanks
  split
  · simp_all
  · rename_i rest' h'
    obtain rfl : rest' = rest := by simpa [h'] using h
    rfl

theorem unread_skipBlanks_le (p : LinePlace) : p.skipBlanks.2.unread ≤ p.unread := by
  cases h : p.rest with
  | none => simp [skipBlanks_of_rest_none h]
  | some rest =>
    simp only [unread, skipBlanks_of_rest h, skip, h, Option.map_some, Option.getD_some]
    exact (List.dropWhile_sublist _).length_le

/-! ### A line as its tokens -/

/-- The steps from a place on: every token with the offset behind it, and last the step that
finds none. -/
def tokenSteps (p : LinePlace) : List (Option String × Nat) :=
  match _h : p.nextToken with
  | (none, q) => [(none, q.offset)]
  | (some token, q) => (some token, q.offset) :: tokenSteps q
termination_by p.unread
decreasing_by
  have hlt := unread_nextToken_lt (congrArg Prod.fst _h)
  rwa [_h] at hlt

end LinePlace

/-- The next token of a line from an offset on, and the offset just behind it. -/
def nextToken (line : List Char) (offset : Nat) : Option String × Nat :=
  let step := (LinePlace.ofOffset line offset).nextToken
  (step.1, step.2.offset)

/-- The offset of the next character that is not blank, or the end of the line, and whether a
line feed was passed on the way there. -/
def skipBlanks (line : List Char) (offset : Nat) : Bool × Nat :=
  let step := (LinePlace.ofOffset line offset).skipBlanks
  (step.1, step.2.offset)

/-- The steps of a line from an offset on. -/
def tokenSteps (line : List Char) (offset : Nat) : List (Option String × Nat) :=
  (LinePlace.ofOffset line offset).tokenSteps

end NnetText
