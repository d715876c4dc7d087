import NnetText.Limits
import NnetText.Literal.Scalar

/-!
# Bracketed vectors

A vector is an opening bracket on the current line, elements on any number of lines, and a
closing bracket. The elements are judged one by one as they are met, after their number has been
checked, so the first fault in the order of the tokens is the one reported.
-/

namespace NnetText.Bracketed

/-- The opening bracket of a vector or a matrix, which has to stand on the current line. The
result is the place in front of it. -/
def openBracket (c : Cursor) : Reading Position :=
  match c.nextToken with
  | (some "[", d) => (.ok c.position, d)
  | (token, d) => (.error (.expectedOpenBracket (ParseError.describe token) d.position), d)

theorem remaining_openBracket_le (c : Cursor) :
    (openBracket c).2.remaining ≤ c.remaining := by
  have h := c.remaining_nextToken_le
  unfold openBracket
  split <;> simp_all

/-- The elements up to the closing bracket, behind those found already, newest first. -/
def elements {α : Type} (limit : Nat) (judge : String → Position → Except ParseError α)
    (start : Position) (found : List α) (c : Cursor) : Reading (List α) :=
  match _h : c.pull with
  | (none, d) => (.error (.unterminatedVector start), d)
  | (some token, d) =>
    if token = "]" then (.ok found.reverse, d)
    else if limit ≤ found.length then (.error (.tooManyElements .vector limit start), d)
    else
      match judge token d.position with
      | .error e => (.error e, d)
      | .ok x => elements limit judge start (x :: found) d
termination_by c.remaining
decreasing_by exact Cursor.remaining_pull_lt _h

/-- **A vector**, whose elements are judged with the places just behind them. -/
def vector {α : Type} (limits : Limits) (judge : String → Position → Except ParseError α)
    (c : Cursor) : Reading (List α) :=
  match openBracket c with
  | (.error e, d) => (.error e, d)
  | (.ok start, d) => elements limits.tensorElements judge start [] d

theorem remaining_elements_le {α : Type} (limit : Nat)
    (judge : String → Position → Except ParseError α) (start : Position) (found : List α)
    (c : Cursor) : (elements limit judge start found c).2.remaining ≤ c.remaining := by
  fun_induction elements limit judge start found c with
  | case1 found c d h => exact Cursor.remaining_le_of_pull h
  | case2 found c d h => exact Cursor.remaining_le_of_pull h
  | case3 found c token d h hne hlimit => exact Cursor.remaining_le_of_pull h
  | case4 found c token d h hne hlimit e he => exact Cursor.remaining_le_of_pull h
  | case5 found c token d h hne hlimit x hx ih =>
    exact Nat.le_trans ih (Cursor.remaining_le_of_pull h)

theorem remaining_vector_le {α : Type} (limits : Limits)
    (judge : String → Position → Except ParseError α) (c : Cursor) :
    (vector limits judge c).2.remaining ≤ c.remaining := by
  have hopen := remaining_openBracket_le c
  unfold vector
  split
  · simp_all
  · rename_i start d hd
    rw [hd] at hopen
    exact Nat.le_trans (remaining_elements_le _ _ _ _ _) hopen

end NnetText.Bracketed
