import NnetText.Matrix

/-!
# The entries of a matrix

A matrix is known by its shape and its entries (`Matrix.ext_get?`), which are stored row by row
(`Matrix.map_some_data`): nothing else need be known of how they are stored. The matrix of a list
of rows has the entries of the rows, and exists exactly if the rows have one width
(`Matrix.ofRows_of_oneWidth`, `Matrix.ofRows_of_firstRagged`); transposing exchanges the two
indices (`Matrix.get?_transpose`).
-/

namespace NnetText.Matrix

variable {α : Type}

/-- **Rows of one width**, that of the row at the top. -/
def OneWidth (rows : List (List α)) : Prop := ∀ row ∈ rows, row.length = widthOf rows

/-- **The first row that does not fit**: it differs in width from the row at the top, and no row
above it does. -/
structure FirstRagged (rows : List (List α)) (r : RaggedRow) : Prop where
  expected : r.expected = widthOf rows
  found : (rows[r.row]?).map List.length = some r.found
  differs : r.found ≠ r.expected
  first : ∀ (k : Nat) (row : List α), k < r.row → rows[k]? = some row → row.length = r.expected

/-- **A matrix is the transpose of rows**: there is a row for every entry of a row, a column for
every row, and the entries are those of the rows. -/
structure IsTransposeOf (m : Matrix α) (rows : List (List α)) : Prop where
  rows_eq : m.rows = widthOf rows
  cols_eq : m.cols = rows.length
  get?_eq : ∀ i j, m.get? i j = (rows[j]?).bind (·[i]?)

/-- Rows have one width, or there is a first that does not fit. -/
theorem oneWidth_or_firstRagged (rows : List (List α)) :
    OneWidth rows ∨ ∃ r, FirstRagged rows r := by
  rcases h : rows.findIdx? (fun row => row.length != widthOf rows) with _ | i
  · rw [List.findIdx?_eq_none_iff] at h
    exact Or.inl fun row hrow => by simpa using h row hrow
  · obtain ⟨hi, hdiffers, hfirst⟩ := List.findIdx?_eq_some_iff_getElem.mp h
    refine Or.inr ⟨⟨i, widthOf rows, (rows[i]).length⟩, rfl, ?_, by simpa using hdiffers, ?_⟩
    · rw [List.getElem?_eq_getElem hi, Option.map_some]
    · intro k row hk hrow
      obtain ⟨hlt, rfl⟩ := List.getElem?_eq_some_iff.mp hrow
      simpa using hfirst k hk

theorem ofRows_of_oneWidth {rows : List (List α)} (h : OneWidth rows) :
    ∃ m, ofRows rows = .ok m ∧ m.rows = rows.length ∧ m.cols = widthOf rows ∧
      m.data = rows.flatten := by
  unfold ofRows
  split
  · rename_i i hi
    obtain ⟨hlt, hdiffers, -⟩ := List.findIdx?_eq_some_iff_getElem.mp hi
    rw [h _ (List.getElem_mem hlt), bne_self_eq_false] at hdiffers
    cases hdiffers
  · exact ⟨_, rfl, rfl, rfl, rfl⟩

theorem ofRows_of_firstRagged {rows : List (List α)} {r : RaggedRow} (h : FirstRagged rows r) :
    ofRows rows = .error r := by
  obtain ⟨row, hrow, hfound⟩ := Option.map_eq_some_iff.mp h.found
  obtain ⟨hlt, rfl⟩ := List.getElem?_eq_some_iff.mp hrow
  have hidx : rows.findIdx? (fun row => row.length != widthOf rows) = some r.row := by
    refine List.findIdx?_eq_some_iff_getElem.mpr ⟨hlt, ?_, fun k hk => ?_⟩
    · rw [hfound, ← h.expected]
      exact bne_iff_ne.mpr h.differs
    · have hwidth := h.first k _ hk (List.getElem?_eq_getElem (Nat.lt_trans hk hlt))
      rw [hwidth, h.expected, bne_self_eq_false]
      exact Bool.false_ne_true
  unfold ofRows
  split
  · rename_i i hi
    obtain rfl : i = r.row := Option.some.inj (hi.symm.trans hidx)
    rw [h.found, ← h.expected, Option.getD_some]
  · rename_i hnone
    cases hnone.symm.trans hidx

/-- Rows of one width, end to end, are indexed by row and column. -/
theorem getElem?_flatten_of_width {rows : List (List α)} {width j : Nat}
    (h : ∀ row ∈ rows, row.length = width) (hj : j < width) (i : Nat) :
    rows.flatten[i * width + j]? = (rows[i]?).bind (·[j]?) := by
  induction rows generalizing i with
  | nil => rfl
  | cons row rows ih =>
    obtain ⟨hrow, hrows⟩ := List.forall_mem_cons.mp h
    rw [List.flatten_cons]
    cases i with
    | zero =>
      rw [Nat.zero_mul, Nat.zero_add, List.getElem?_append_left (hrow ▸ hj),
        List.getElem?_cons_zero, Option.bind_some]
    | succ i =>
      have hindex : (i + 1) * width + j - row.length = i * width + j := by
        rw [hrow, Nat.succ_mul]
        omega
      rw [List.getElem?_append_right (by rw [hrow, Nat.succ_mul]; omega), hindex, ih hrows,
        List.getElem?_cons_succ]

/-- **The entries of a matrix are those of its rows.** -/
theorem get?_of_data {m : Matrix α} {rows : List (List α)} (h : OneWidth rows)
    (hrows : m.rows = rows.length) (hcols : m.cols = widthOf rows) (hdata : m.data = rows.flatten)
    (i j : Nat) : m.get? i j = (rows[i]?).bind (·[j]?) := by
  rw [get?, hrows, hcols, hdata]
  split
  · rename_i hlt
    exact getElem?_flatten_of_width h hlt.2 i
  · rename_i hnot
    rcases hrow : rows[i]? with _ | row
    · rfl
    · obtain ⟨hlt, rfl⟩ := List.getElem?_eq_some_iff.mp hrow
      have hwidth := h _ (List.getElem_mem hlt)
      rw [Option.bind_some, List.getElem?_eq_none]
      omega

/-- The place of an entry, taken apart again. -/
theorem index_div_mod {rows j : Nat} (hj : j < rows) (i : Nat) :
    (i * rows + j) % rows = j ∧ (i * rows + j) / rows = i := by
  rw [Nat.add_comm, Nat.add_mul_mod_self_right, Nat.mod_eq_of_lt hj,
    Nat.add_mul_div_right _ _ (by omega), Nat.div_eq_of_lt hj, Nat.zero_add]
  exact ⟨rfl, rfl⟩

/-- An index within the shape is the place of an entry. -/
theorem index_lt {rows cols i j : Nat} (hi : i < rows) (hj : j < cols) :
    i * cols + j < rows * cols := by
  calc i * cols + j < i * cols + cols := by omega
    _ = (i + 1) * cols := by rw [Nat.succ_mul]
    _ ≤ rows * cols := Nat.mul_le_mul_right _ hi

/-- **Transposing exchanges the indices.** -/
theorem get?_transpose (m : Matrix α) (i j : Nat) : m.transpose.get? i j = m.get? j i := by
  rw [get?, get?]
  change (if i < m.cols ∧ j < m.rows then m.transpose.data[i * m.rows + j]? else none) = _
  by_cases hlt : i < m.cols ∧ j < m.rows
  · obtain ⟨hi, hj⟩ := hlt
    obtain ⟨hmod, hdiv⟩ := index_div_mod hj i
    rw [if_pos ⟨hi, hj⟩, if_pos ⟨hj, hi⟩, transpose, List.getElem?_ofFn, dif_pos (index_lt hi hj),
      List.getElem?_eq_getElem (by rw [m.length_data]; exact index_lt hj hi)]
    simp only [hmod, hdiv, List.getElem_toArray]
  · rw [if_neg hlt, if_neg (fun h => hlt h.symm)]

/-- The entries of a matrix are found row by row, in each row from the left. -/
theorem map_some_data (m : Matrix α) :
    m.data.map some =
      (List.range m.rows).flatMap fun i => (List.range m.cols).map fun j => m.get? i j := by
  have hwidth : ∀ row ∈ (List.range m.rows).map fun i =>
      (List.range m.cols).map fun j => m.get? i j, row.length = m.cols := by
    intro row hrow
    obtain ⟨i, -, rfl⟩ := List.mem_map.mp hrow
    rw [List.length_map, List.length_range]
  rw [List.flatMap_def]
  refine List.ext_getElem? fun k => ?_
  by_cases hk : k < m.rows * m.cols
  · have hpos : 0 < m.cols := Nat.pos_of_ne_zero fun hzero => by
      rw [hzero] at hk
      omega
    have hmod : k % m.cols < m.cols := Nat.mod_lt _ hpos
    have hdiv : k / m.cols < m.rows := Nat.div_lt_of_lt_mul (by rwa [Nat.mul_comm] at hk)
    have hstored : (m.data.map some)[k]? = some m.data[k]? := by
      rw [List.getElem?_map, List.getElem?_eq_getElem (by rw [m.length_data]; exact hk),
        Option.map_some]
    have hfound := getElem?_flatten_of_width hwidth hmod (k / m.cols)
    rw [Nat.div_add_mod', List.getElem?_map, List.getElem?_range hdiv, Option.map_some,
      Option.bind_some, List.getElem?_map, List.getElem?_range hmod, Option.map_some] at hfound
    rw [hstored, hfound, get?, if_pos ⟨hdiv, hmod⟩, Nat.div_add_mod']
  · have hlength := length_flatten_of_width hwidth
    rw [List.length_map, List.length_range] at hlength
    rw [List.getElem?_eq_none (by rw [List.length_map, m.length_data]; omega),
      List.getElem?_eq_none (by omega)]

/-- **A matrix is known by its shape and its entries.** -/
theorem ext_get? {m n : Matrix α} (hrows : m.rows = n.rows) (hcols : m.cols = n.cols)
    (h : ∀ i j, m.get? i j = n.get? i j) : m = n := by
  have hfound : m.data.map some = n.data.map some := by
    simp only [map_some_data, hrows, hcols, h]
  have hdata : m.data = n.data := (List.map_inj_right fun _ _ => Option.some.inj).mp hfound
  cases m
  cases n
  cases hrows
  cases hcols
  cases hdata
  rfl

/-- The transpose of the matrix of some rows. -/
theorem isTransposeOf_ofRows {rows : List (List α)} (h : OneWidth rows) :
    ∃ m, ofRows rows = .ok m ∧ m.transpose.IsTransposeOf rows := by
  obtain ⟨m, hm, hrows, hcols, hdata⟩ := ofRows_of_oneWidth h
  refine ⟨m, hm, hcols, hrows, fun i j => ?_⟩
  rw [get?_transpose, get?_of_data h hrows hcols hdata]

theorem IsTransposeOf.unique {m n : Matrix α} {rows : List (List α)} (hm : m.IsTransposeOf rows)
    (hn : n.IsTransposeOf rows) : m = n :=
  ext_get? (hm.rows_eq.trans hn.rows_eq.symm) (hm.cols_eq.trans hn.cols_eq.symm)
    fun i j => (hm.get?_eq i j).trans (hn.get?_eq i j).symm

end NnetText.Matrix
