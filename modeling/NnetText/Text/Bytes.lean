/-!
# Texts measured in bytes

Places in a line are counted in bytes of its UTF-8 form, although a line is kept as a list of
characters. A count that falls inside a character, or beyond the end, is no place at all:
`suffixAt` tells the two apart, and every other function asks it.

`splitAfter` cuts a list behind each separator. Applied to characters it gives the lines of a
text, applied to bytes the lines of a stream, so that the two can be compared.
-/

namespace NnetText

/-- The number of bytes a text takes in UTF-8. -/
def byteSize (cs : List Char) : Nat :=
  cs.foldr (fun c n => c.utf8Size + n) 0

@[simp] theorem byteSize_nil : byteSize [] = 0 := rfl

@[simp] theorem byteSize_cons (c : Char) (cs : List Char) :
    byteSize (c :: cs) = c.utf8Size + byteSize cs := rfl

@[simp] theorem byteSize_append (as bs : List Char) :
    byteSize (as ++ bs) = byteSize as + byteSize bs := by
  induction as with
  | nil => simp
  | cons a as ih => simp [ih]; omega

/-- The text from a byte offset on, or `none` when the offset lies inside a character or
beyond the end. -/
def suffixAt : List Char → Nat → Option (List Char)
  | cs, 0 => some cs
  | [], _ + 1 => none
  | c :: cs, n + 1 => if c.utf8Size ≤ n + 1 then suffixAt cs (n + 1 - c.utf8Size) else none

@[simp] theorem suffixAt_zero (cs : List Char) : suffixAt cs 0 = some cs := by
  cases cs <;> rfl

/-- An offset behind a first character counts on from that character. -/
theorem suffixAt_cons_add (c : Char) (cs : List Char) (n : Nat) :
    suffixAt (c :: cs) (c.utf8Size + n) = suffixAt cs n := by
  have hc := Char.utf8Size_pos c
  obtain ⟨k, hk⟩ : ∃ k, c.utf8Size + n = k + 1 := ⟨c.utf8Size + n - 1, by omega⟩
  rw [hk, suffixAt, ← hk, if_pos (by omega), Nat.add_sub_cancel_left]

/-- Offsets add up: an offset behind a place counts from that place. -/
theorem suffixAt_add {line rest : List Char} {offset : Nat}
    (h : suffixAt line offset = some rest) (n : Nat) :
    suffixAt line (offset + n) = suffixAt rest n := by
  induction line generalizing offset with
  | nil =>
    cases offset with
    | zero => simp_all
    | succ k => simp [suffixAt] at h
  | cons c cs ih =>
    cases offset with
    | zero => simp_all
    | succ k =>
      rw [suffixAt] at h
      split at h
      · rename_i hle
        have heq : k + 1 + n = c.utf8Size + (k + 1 - c.utf8Size + n) := by omega
        rw [heq, suffixAt_cons_add, ih h]
      · simp at h

/-- What stands behind a beginning of the text. -/
theorem suffixAt_append (pre rest : List Char) :
    suffixAt (pre ++ rest) (byteSize pre) = some rest := by
  induction pre with
  | nil => simp
  | cons c cs ih => rw [List.cons_append, byteSize_cons, suffixAt_cons_add, ih]

/-- What stands behind a beginning of what is left. -/
theorem suffixAt_add_byteSize {line passed left : List Char} {offset : Nat}
    (h : suffixAt line offset = some (passed ++ left)) :
    suffixAt line (offset + byteSize passed) = some left := by
  rw [suffixAt_add h, suffixAt_append]

/-- Puts one more element in front of a list that is already cut behind its separators. -/
def consPiece {α : Type} (separator : α → Bool) (a : α) : List (List α) → List (List α)
  | [] => [[a]]
  | piece :: pieces =>
    if separator a then [a] :: piece :: pieces else (a :: piece) :: pieces

/-- A list cut behind each of its separators. No piece is empty, and a list that ends in a
separator has no empty piece behind it. -/
def splitAfter {α : Type} (separator : α → Bool) (l : List α) : List (List α) :=
  l.foldr (consPiece separator) []

/-- Cutting loses nothing. -/
theorem flatten_splitAfter {α : Type} (separator : α → Bool) (l : List α) :
    (splitAfter separator l).flatten = l := by
  induction l with
  | nil => rfl
  | cons a l ih =>
    have hstep : splitAfter separator (a :: l) = consPiece separator a (splitAfter separator l) :=
      rfl
    rw [hstep]
    cases hs : splitAfter separator l with
    | nil => rw [hs] at ih; simp_all [consPiece]
    | cons piece pieces =>
      rw [hs] at ih
      simp only [consPiece]
      split <;> simp_all

/-- The characters that a sequence of bytes stands for, if it is UTF-8. -/
def decodeUtf8 (bytes : List UInt8) : Option (List Char) :=
  (String.fromUTF8? ⟨bytes.toArray⟩).map String.toList

end NnetText
