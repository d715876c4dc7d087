import NnetText.Cursor
import NnetText.ParseError

/-!
# Scalar literals

A truth value, an integer or a number is one token of the current line. No further line is
asked for: a line that ends where a scalar should stand is an error of its own.
-/

namespace NnetText

/-- The result of a reading step, and the cursor it leaves behind, also after a failure. -/
abbrev Reading (α : Type) := Except ParseError α × Cursor

namespace Scalar

/-- One token of the current line, judged together with the place just behind it. -/
def read {α : Type} (expected : Expected)
    (judge : String → Position → Except ParseError α) (c : Cursor) : Reading α :=
  match c.nextToken with
  | (none, d) => (.error (.missingValue expected d.position), d)
  | (some token, d) => (judge token d.position, d)

/-- The spellings of a truth value. -/
def bool (token : String) (place : Position) : Except ParseError Bool :=
  if token = "F" || token = "False" || token = "false" then .ok false
  else if token = "T" || token = "True" || token = "true" then .ok true
  else .error (.invalidBoolean token place)

/-- An integer. -/
def integer (token : String) (place : Position) : Except ParseError Int :=
  match Integer.parse token with
  | .ok n => .ok n
  | .error fault => .error (.invalidInteger token place fault)

/-- A number of the given format. -/
def float (f : Format) (token : String) (place : Position) : Except ParseError (Binary f) :=
  match f.parse token with
  | .ok x => .ok x
  | .error fault => .error (.invalidFloat token place fault)

theorem remaining_read_le {α : Type} (expected : Expected)
    (judge : String → Position → Except ParseError α) (c : Cursor) :
    (read expected judge c).2.remaining ≤ c.remaining := by
  have h := c.remaining_nextToken_le
  unfold read
  split <;> simp_all

end Scalar

end NnetText
