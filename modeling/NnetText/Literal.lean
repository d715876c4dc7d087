import NnetText.Literal.Matrix
import NnetText.Value

/-!
# Literals

The six forms a value can be written in. Which of them follows a tag is said by the table of the
component; `Literal.read` reads it and wraps it up as a value.
-/

namespace NnetText

/-- The form of a value. -/
inductive Literal where
  | bool
  | int
  | float
  | ints
  | floats
  | matrix
deriving DecidableEq, Repr

namespace Literal

/-- A reading with its result wrapped up. -/
def wrap {α : Type} (make : α → Value) (r : Reading α) : Reading Value :=
  (r.1.map make, r.2)

/-- **The value written in the given form** at the cursor. -/
def read (limits : Limits) (l : Literal) (c : Cursor) : Reading Value :=
  match l with
  | bool => wrap .bool (Scalar.read .bool Scalar.bool c)
  | int => wrap .int (Scalar.read .integer Scalar.integer c)
  | float => wrap .float (Scalar.read .float (Scalar.float .double) c)
  | ints => wrap .ints (Bracketed.vector limits Scalar.integer c)
  | floats => wrap .floats (Bracketed.vector limits (Scalar.float .single) c)
  | matrix => wrap .matrix (Bracketed.matrix limits c)

theorem remaining_read_le (limits : Limits) (l : Literal) (c : Cursor) :
    (read limits l c).2.remaining ≤ c.remaining := by
  cases l with
  | bool => exact Scalar.remaining_read_le _ _ _
  | int => exact Scalar.remaining_read_le _ _ _
  | float => exact Scalar.remaining_read_le _ _ _
  | ints => exact Bracketed.remaining_vector_le _ _ _
  | floats => exact Bracketed.remaining_vector_le _ _ _
  | matrix => exact Bracketed.remaining_matrix_le _ _

end Literal

end NnetText
