import NnetText.Literal.Vector
import NnetText.Matrix

/-!
# Bracketed matrices

A matrix is written row by row between brackets. A row ends with its line, at a line feed inside
the line, or at the closing bracket; a row without elements counts for nothing, and one opening
bracket in front of an element is passed over. What is kept is the transpose of what is written:
weights are written with one output to a row and stored with one output to a column.
-/

namespace NnetText.Bracketed

/-- The rows found so far, newest first, each with its newest element first. -/
structure RowsFound where
  rows : List (List Single)
  current : List Single
  count : Nat
deriving DecidableEq, Repr

namespace RowsFound

/-- Nothing found. -/
def none : RowsFound := ⟨[], [], 0⟩

/-- One more element in the current row. -/
def push (r : RowsFound) (x : Single) : RowsFound := ⟨r.rows, x :: r.current, r.count + 1⟩

/-- The end of the current row, which is dropped if it is empty. -/
def endRow (r : RowsFound) : RowsFound :=
  if r.current.isEmpty then r else ⟨r.current.reverse :: r.rows, [], r.count⟩

/-- The rows in the order in which they are written. -/
def toList (r : RowsFound) : List (List Single) := r.endRow.rows.reverse

end RowsFound

/-- The next token of the current line, or the one behind it if it is an opening bracket. -/
def elementToken (c : Cursor) : Option String × Cursor :=
  match c.nextToken with
  | (some "[", d) => d.nextToken
  | step => step

theorem remaining_elementToken_le (c : Cursor) :
    (elementToken c).2.remaining ≤ c.remaining := by
  have h := c.remaining_nextToken_le
  unfold elementToken
  split
  · rename_i d hd
    rw [hd] at h
    exact Nat.le_trans d.remaining_nextToken_le h
  · exact h

theorem remaining_elementToken_lt {c d : Cursor} {token : String}
    (h : elementToken c = (some token, d)) : d.remaining < c.remaining := by
  unfold elementToken at h
  split at h
  · rename_i e he
    exact Nat.lt_trans (Cursor.remaining_nextToken_lt h) (Cursor.remaining_nextToken_lt he)
  · exact Cursor.remaining_nextToken_lt h

/-- The transpose of the rows, if they have one width. -/
def finish (r : RowsFound) (place : Position) : Except ParseError (Matrix Single) :=
  match Matrix.ofRows r.toList with
  | .ok m => .ok m.transpose
  | .error ragged =>
    .error (.raggedMatrix ragged.row ragged.expected ragged.found place)

/-- The rows up to the closing bracket, behind those found already. -/
def rows (limit : Nat) (start : Position) (found : RowsFound) (c : Cursor) :
    Reading (Matrix Single) :=
  match _h : elementToken c with
  | (none, d) =>
    match _hd : d.advance with
    | (true, e) => rows limit start found.endRow e
    | (false, e) => (.error (.unterminatedMatrix start), e)
  | (some token, d) =>
    if token = "]" then (finish found d.position, d)
    else if limit ≤ found.count then (.error (.tooManyElements .matrix limit start), d)
    else
      match Scalar.float .single token d.position with
      | .error e => (.error e, d)
      | .ok x =>
        match _hd : d.skipBlanks with
        | (true, e) => rows limit start (found.push x).endRow e
        | (false, e) => rows limit start (found.push x) e
termination_by c.remaining
decreasing_by
  · have h₁ := remaining_elementToken_le c
    have h₂ := Cursor.remaining_advance_lt _hd
    rw [_h] at h₁
    exact Nat.lt_of_lt_of_le h₂ h₁
  all_goals
    have h₁ := remaining_elementToken_lt _h
    have h₂ := d.remaining_skipBlanks_le
    rw [_hd] at h₂
    exact Nat.lt_of_le_of_lt h₂ h₁

/-- **A matrix**, transposed. -/
def matrix (limits : Limits) (c : Cursor) : Reading (Matrix Single) :=
  match openBracket c with
  | (.error e, d) => (.error e, d)
  | (.ok start, d) => rows limits.tensorElements start .none d

theorem remaining_rows_le (limit : Nat) (start : Position) (found : RowsFound) (c : Cursor) :
    (rows limit start found c).2.remaining ≤ c.remaining := by
  fun_induction rows limit start found c with
  | case1 found c d h e he ih =>
    have h₁ := remaining_elementToken_le c
    rw [h] at h₁
    exact Nat.le_trans ih (Nat.le_trans (Nat.le_of_lt (Cursor.remaining_advance_lt he)) h₁)
  | case2 found c d h e he =>
    have h₁ := remaining_elementToken_le c
    have h₂ := d.remaining_advance_le
    rw [h] at h₁
    rw [he] at h₂
    exact Nat.le_trans h₂ h₁
  | case3 found c d h => exact Nat.le_of_lt (remaining_elementToken_lt h)
  | case4 found c token d h hne hlimit => exact Nat.le_of_lt (remaining_elementToken_lt h)
  | case5 found c token d h hne hlimit e he => exact Nat.le_of_lt (remaining_elementToken_lt h)
  | case6 found c token d h hne hlimit x hx e he ih =>
    have h₁ := d.remaining_skipBlanks_le
    rw [he] at h₁
    exact Nat.le_trans ih (Nat.le_trans h₁ (Nat.le_of_lt (remaining_elementToken_lt h)))
  | case7 found c token d h hne hlimit x hx e he ih =>
    have h₁ := d.remaining_skipBlanks_le
    rw [he] at h₁
    exact Nat.le_trans ih (Nat.le_trans h₁ (Nat.le_of_lt (remaining_elementToken_lt h)))

theorem remaining_matrix_le (limits : Limits) (c : Cursor) :
    (matrix limits c).2.remaining ≤ c.remaining := by
  have hopen := remaining_openBracket_le c
  unfold matrix
  split
  · simp_all
  · rename_i start d hd
    rw [hd] at hopen
    exact Nat.le_trans (remaining_rows_le _ _ _ _) hopen

end NnetText.Bracketed
