/-!
# Dense matrices

A matrix is stored row by row, and its shape is part of it: a matrix of two empty rows differs
from one of no rows at all. Since the number of entries is the product of the two sides, every
index that `transpose` computes is within range.
-/

namespace NnetText

/-- A matrix, row by row. -/
structure Matrix (α : Type) where
  rows : Nat
  cols : Nat
  data : List α
  length_data : data.length = rows * cols
deriving DecidableEq, Repr

/-- The first row whose width differs from that of the row at the top. -/
structure RaggedRow where
  row : Nat
  expected : Nat
  found : Nat
deriving DecidableEq, Repr

namespace Matrix

variable {α : Type}

/-- The number of entries of rows of one width. -/
theorem length_flatten_of_width {rows : List (List α)} {width : Nat}
    (h : ∀ row ∈ rows, row.length = width) : rows.flatten.length = rows.length * width := by
  induction rows with
  | nil => simp
  | cons row rows ih =>
    rw [List.flatten_cons, List.length_append, h row (by simp),
      ih (fun r hr => h r (List.mem_cons_of_mem _ hr)), List.length_cons, Nat.succ_mul]
    omega

/-- The width of the first row, or zero. -/
def widthOf (rows : List (List α)) : Nat :=
  (rows.head?.map List.length).getD 0

/-- **The matrix of a list of rows**, or the first row that does not fit. -/
def ofRows (rows : List (List α)) : Except RaggedRow (Matrix α) :=
  match h : rows.findIdx? (fun row => row.length != widthOf rows) with
  | some i => .error ⟨i, widthOf rows, ((rows[i]?).map List.length).getD 0⟩
  | none =>
    .ok ⟨rows.length, widthOf rows, rows.flatten, by
      rw [List.findIdx?_eq_none_iff] at h
      exact length_flatten_of_width (fun row hrow => by simpa using h row hrow)⟩

/-- The matrix without entries. -/
def empty : Matrix α := ⟨0, 0, [], rfl⟩

instance : Inhabited (Matrix α) := ⟨empty⟩

/-- The entry in a row and a column. -/
def get? (m : Matrix α) (row col : Nat) : Option α :=
  if row < m.rows ∧ col < m.cols then m.data[row * m.cols + col]? else none

/-- Whether there is no entry. -/
def isEmpty (m : Matrix α) : Bool := m.data.isEmpty

/-- The place of an entry of the transpose among the entries of the matrix. -/
theorem transposed_index_lt {rows cols i : Nat} (h : i < cols * rows) :
    i % rows * cols + i / rows < rows * cols := by
  have hrows : 0 < rows := Nat.pos_of_ne_zero (by rintro rfl; simp at h)
  have hcol : i / rows < cols := Nat.div_lt_of_lt_mul (by rwa [Nat.mul_comm] at h)
  have hrow : i % rows < rows := Nat.mod_lt _ hrows
  calc i % rows * cols + i / rows < i % rows * cols + cols := by omega
    _ = (i % rows + 1) * cols := by rw [Nat.succ_mul]
    _ ≤ rows * cols := Nat.mul_le_mul_right _ hrow

/-- **Rows and columns exchanged.** -/
def transpose (m : Matrix α) : Matrix α where
  rows := m.cols
  cols := m.rows
  data :=
    let entries := m.data.toArray
    List.ofFn fun i : Fin (m.cols * m.rows) =>
      have : i % m.rows * m.cols + i / m.rows < entries.size := by
        rw [List.size_toArray, m.length_data]; exact transposed_index_lt i.isLt
      entries[i % m.rows * m.cols + i / m.rows]
  length_data := List.length_ofFn

/-- Whether two matrices have one shape and entries that agree pairwise. -/
def agrees (agree : α → α → Bool) (m n : Matrix α) : Bool :=
  m.rows == n.rows && m.cols == n.cols && (m.data.zip n.data).all (fun p => agree p.1 p.2)

end Matrix

end NnetText
