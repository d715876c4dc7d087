import Mathlib.Data.List.Chain
import NnetText.Proofs.Bodies
import NnetText.Proofs.Layout
import NnetText.Proofs.Matrices
import NnetText.Proofs.VectorGrammar

/-!
# The grammar of matrices

A matrix is settled by the tokens ahead too, but now line by line: the elements of a line are a
row, and lines without any are no rows. `Bracketed.IsRow` says when the tokens of a line pass,
`Bracketed.IsMatrix` which matrices can be read and `Bracketed.MatrixFault` what is said about the
others. One opening bracket may stand in front of any element; of two next to each other, the
second is taken for an element, and is none.

What the reader does with brackets is said first, on lists: `Bracketed.elementsOf` are the tokens
of a line that it takes for elements, and a step of the reader is a step along them
(`Bracketed.elementToken_of_elementsOf`). Then a row is run over (`Bracketed.rows_of_row`), and
rows line by line (`Bracketed.rows_of_rows`). The rows found so far are kept without the empty
ones, and the last of them may have been ended by a line feed or not; both is dealt with by
looking at them after the row has ended, since it makes no difference to end it again.
-/

namespace NnetText

namespace Bracketed

/-! ### What can be read -/

/-- **The tokens of a line pass as a row** of a matrix: none of them closes it, no two opening
brackets stand next to each other, and all other tokens are numbers. -/
structure IsRow (tokens : List Sighting) (row : List Single) : Prop where
  unclosed : ∀ t ∈ tokens, t.1 ≠ "]"
  apart : tokens.IsChain (fun s t => ¬(s.1 = "[" ∧ t.1 = "["))
  judged : List.Forall₂ (fun t x => Format.single.parse t.1 = .ok x)
    (tokens.filter (fun t => t.1 ≠ "[")) row

/-- The rows that have an element. -/
def filled (rows : List (List Single)) : List (List Single) := rows.filter (fun row => row ≠ [])

/-- **Rows stand ahead**, behind an opening bracket, one for each line: `line` are the tokens of
the last of them, `rest` is what is left on its line and `later` are the lines to come. -/
def RowsAhead (c : Cursor) (rows : List (List Single)) (line rest : List Sighting)
    (later : List (List Sighting)) : Prop :=
  ∃ lines done row, c.OpensLines (lines ++ (line ++ rest) :: later) ∧
    List.Forall₂ IsRow lines done ∧ IsRow line row ∧ rows = done ++ [row]

/-- **A matrix stands ahead**, of which `m` is the transpose; `d` is the cursor just behind it. -/
def IsMatrix (limit : Nat) (c : Cursor) (m : Matrix Single) (d : Cursor) : Prop :=
  ∃ rows line after later, RowsAhead c rows line (("]", d) :: after) later ∧
    rows.flatten.length ≤ limit ∧ Matrix.OneWidth (filled rows) ∧ m.IsTransposeOf (filled rows)

/-- **An element is due** behind some tokens of the line: the next token is no opening bracket, or
stands right behind one. -/
def IsDue (line : List Sighting) (t : Sighting) : Prop :=
  t.1 = "[" → ∃ s ∈ line.getLast?, s.1 = "["

/-- **What stands in the way of a matrix**, in the order of the tokens. -/
inductive MatrixFault (limit : Nat) (c : Cursor) : ParseError → Prop
  /-- There is no opening bracket. -/
  | unopened {e : ParseError} (h : Unopened c e) : MatrixFault limit c e
  /-- Behind as many elements as allowed stands one more, whatever it is. -/
  | tooMany {rows : List (List Single)} {line after : List Sighting}
      {later : List (List Sighting)} {t : Sighting} (h : RowsAhead c rows line (t :: after) later)
      (full : rows.flatten.length = limit) (unclosed : t.1 ≠ "]") (due : IsDue line t) :
      MatrixFault limit c (.tooManyElements .matrix limit c.position)
  /-- Behind fewer elements stands one that is no number. -/
  | refused {rows : List (List Single)} {line after : List Sighting}
      {later : List (List Sighting)} {t : Sighting} {fault : DecimalFault}
      (h : RowsAhead c rows line (t :: after) later) (room : rows.flatten.length < limit)
      (unclosed : t.1 ≠ "]") (due : IsDue line t)
      (invalid : Format.single.parse t.1 = .error fault) :
      MatrixFault limit c (.invalidFloat t.1 t.2.position fault)
  /-- The input ends behind the rows. -/
  | unterminated {rows : List (List Single)} {line : List Sighting}
      (h : RowsAhead c rows line [] []) (room : rows.flatten.length ≤ limit) :
      MatrixFault limit c (.unterminatedMatrix c.position)
  /-- The matrix is closed, but a row differs in width from the first. -/
  | ragged {rows : List (List Single)} {line after : List Sighting}
      {later : List (List Sighting)} {d : Cursor} {r : RaggedRow}
      (h : RowsAhead c rows line (("]", d) :: after) later) (room : rows.flatten.length ≤ limit)
      (first : Matrix.FirstRagged (filled rows) r) :
      MatrixFault limit c (.raggedMatrix r.row r.expected r.found d.position)

/-! ### Elements and brackets -/

/-- **The tokens of a line that are taken for elements**: an opening bracket is passed over,
unless one has just been. -/
def elementsOf : Bool → List Sighting → List Sighting
  | _, [] => []
  | passed, t :: tokens =>
    if t.1 = "[" ∧ passed = false then elementsOf true tokens else t :: elementsOf false tokens

/-- Whether the last of some tokens is an opening bracket. -/
def endsOpen (passed : Bool) (tokens : List Sighting) : Bool :=
  (tokens.getLast?.map (fun t => decide (t.1 = "["))).getD passed

theorem endsOpen_cons (passed : Bool) (t : Sighting) (tokens : List Sighting) :
    endsOpen passed (t :: tokens) = endsOpen (decide (t.1 = "[")) tokens := by
  rw [endsOpen, endsOpen, List.getLast?_cons]
  cases tokens.getLast? <;> rfl

/-- **Brackets that stand apart are all passed over.** -/
theorem elementsOf_append {tokens : List Sighting} {passed : Bool}
    (hapart : tokens.IsChain (fun s t => ¬(s.1 = "[" ∧ t.1 = "[")))
    (hpassed : passed = true → ∀ t ∈ tokens.head?, t.1 ≠ "[") (rest : List Sighting) :
    elementsOf passed (tokens ++ rest) =
      tokens.filter (fun t => t.1 ≠ "[") ++ elementsOf (endsOpen passed tokens) rest := by
  induction tokens generalizing passed with
  | nil => rfl
  | cons t tokens ih =>
    obtain ⟨hnext, hapart⟩ := List.isChain_cons.mp hapart
    rw [List.cons_append, elementsOf, endsOpen_cons]
    by_cases hopen : t.1 = "["
    · have hfalse : passed = false := by
        rcases passed with _ | _
        · rfl
        · exact absurd hopen (hpassed rfl t rfl)
      rw [if_pos ⟨hopen, hfalse⟩, ih hapart (fun _ s hs hs' => hnext s hs ⟨hopen, hs'⟩),
        List.filter_cons_of_neg (by simpa using hopen), decide_eq_true hopen]
    · rw [if_neg (fun h => hopen h.1), ih hapart (fun h => absurd h Bool.false_ne_true),
        List.filter_cons_of_pos (by simpa using hopen), decide_eq_false hopen, List.cons_append]

theorem IsRow.elementsOf_append {tokens : List Sighting} {row : List Single}
    (h : IsRow tokens row) (rest : List Sighting) :
    elementsOf false (tokens ++ rest) =
      tokens.filter (fun t => t.1 ≠ "[") ++ elementsOf (endsOpen false tokens) rest :=
  Bracketed.elementsOf_append h.apart (fun h => absurd h Bool.false_ne_true) rest

/-- A token that is due is taken for an element. -/
theorem IsDue.elementsOf_cons {tokens : List Sighting} {t : Sighting} (h : IsDue tokens t)
    (after : List Sighting) :
    elementsOf (endsOpen false tokens) (t :: after) = t :: elementsOf false after := by
  rw [elementsOf, if_neg]
  rintro ⟨hopen, hends⟩
  obtain ⟨s, hs, hs'⟩ := h hopen
  rw [endsOpen, Option.mem_def.mp hs, Option.map_some, Option.getD_some,
    decide_eq_true hs'] at hends
  cases hends

/-- **The next element** is the first of those of the line. -/
theorem elementToken_of_elementsOf {c d : Cursor} {token : String} {rest : List Sighting}
    (h : elementsOf false c.lineAhead = (token, d) :: rest) :
    elementToken c = (some token, d) ∧ elementsOf false d.lineAhead = rest ∧
      d.laterAhead = c.laterAhead := by
  rcases hline : c.lineAhead with _ | ⟨⟨first, e⟩, line⟩
  · rw [hline] at h
    cases h
  · obtain ⟨hnext, he⟩ := Cursor.nextToken_of_lineAhead hline
    have hlater := Cursor.laterAhead_of_nextToken hnext
    rw [hline, elementsOf] at h
    by_cases hopen : first = "["
    · -- one bracket is passed over, and the token behind it is taken, whatever it is
      rw [if_pos ⟨hopen, rfl⟩] at h
      rcases line with _ | ⟨⟨second, f⟩, line⟩
      · cases h
      · rw [elementsOf, if_neg (fun h => Bool.noConfusion h.2)] at h
        obtain ⟨hhead, rfl⟩ := List.cons.inj h
        obtain ⟨rfl, rfl⟩ := Prod.mk.inj hhead
        obtain ⟨hnext', hd⟩ := Cursor.nextToken_of_lineAhead he
        refine ⟨?_, congrArg _ hd, (Cursor.laterAhead_of_nextToken hnext').trans hlater⟩
        rw [hopen] at hnext
        exact (elementToken_of_open hnext).trans hnext'
    · rw [if_neg (fun h => hopen h.1)] at h
      obtain ⟨hhead, rfl⟩ := List.cons.inj h
      obtain ⟨rfl, rfl⟩ := Prod.mk.inj hhead
      exact ⟨elementToken_of_ne hnext (by simpa using hopen), congrArg _ he, hlater⟩

theorem elementToken_of_elementsOf_nil {c : Cursor} (h : elementsOf false c.lineAhead = []) :
    ∃ d, elementToken c = (none, d) ∧ d.laterAhead = c.laterAhead := by
  rcases hline : c.lineAhead with _ | ⟨⟨first, e⟩, line⟩
  · obtain ⟨d, hnext, -, -⟩ := Cursor.nextToken_of_lineAhead_nil hline
    exact ⟨d, elementToken_of_ne hnext (by simp), Cursor.laterAhead_of_nextToken hnext⟩
  · obtain ⟨hnext, he⟩ := Cursor.nextToken_of_lineAhead hline
    rw [hline, elementsOf] at h
    by_cases hopen : first = "["
    · rw [if_pos ⟨hopen, rfl⟩] at h
      rcases line with _ | ⟨second, line⟩
      · obtain ⟨d, hnext', -, -⟩ := Cursor.nextToken_of_lineAhead_nil he
        refine ⟨d, ?_, (Cursor.laterAhead_of_nextToken hnext').trans
          (Cursor.laterAhead_of_nextToken hnext)⟩
        rw [hopen] at hnext
        exact (elementToken_of_open hnext).trans hnext'
      · rw [elementsOf, if_neg (fun h => Bool.noConfusion h.2)] at h
        cases h
    · rw [if_neg (fun h => hopen h.1)] at h
      cases h

/-! ### Rows found -/

/-- What has been found once `done` are the rows of the lines behind, and `row` has been met on
the current line. -/
def RowsFound.of (done : List (List Single)) (row : List Single) : RowsFound :=
  ⟨(filled done).reverse, row.reverse, done.flatten.length + row.length⟩

theorem RowsFound.push_of (done : List (List Single)) (row : List Single) (x : Single) :
    (of done row).push x = of done (row ++ [x]) := by
  simp [of, push, Nat.add_assoc]

theorem RowsFound.endRow_of (done : List (List Single)) (row : List Single) :
    (of done row).endRow = of (done ++ [row]) [] := by
  by_cases h : row = [] <;> simp [of, endRow, filled, h]

theorem RowsFound.toList_of_endRow {found : RowsFound} {rows : List (List Single)}
    (h : found.endRow = of rows []) : found.toList = filled rows := by
  rw [toList, h, of, List.reverse_reverse]

theorem RowsFound.count_of_endRow {found : RowsFound} {rows : List (List Single)}
    (h : found.endRow = of rows []) : found.count = rows.flatten.length := by
  rw [← count_endRow, h]
  rfl

variable {limit : Nat} {start : Position} {found : RowsFound} {c d : Cursor}

/-- **One element more.** If the line has ended with it, its row may have been ended too. -/
theorem rows_of_element {t : Sighting} {rest : List Sighting} {x : Single} (hc : c.FeedsLast)
    (h : elementsOf false c.lineAhead = t :: rest) (hne : t.1 ≠ "]")
    (hx : Format.single.parse t.1 = .ok x) (hroom : found.count < limit) :
    ∃ (d : Cursor) (found' : RowsFound), d.FeedsLast ∧ elementsOf false d.lineAhead = rest ∧
      d.laterAhead = c.laterAhead ∧
      rows limit start found c = rows limit start found' d ∧
      (found' = found.push x ∨ found' = (found.push x).endRow ∧ rest = []) := by
  obtain ⟨token, e⟩ := t
  obtain ⟨htoken, hrest, hlater⟩ := elementToken_of_elementsOf h
  have he : e.FeedsLast := ((moves_elementToken c).of_eq htoken).feedsLast hc
  refine ⟨e.skipBlanks.2, if e.skipBlanks.1 then (found.push x).endRow else found.push x,
    e.moves_skipBlanks.feedsLast he, ?_, ?_, ?_, ?_⟩
  · rw [Cursor.lineAhead_skipBlanks, hrest]
  · rw [Cursor.laterAhead_skipBlanks, hlater]
  · rw [rows_eq, htoken]
    dsimp only
    rw [if_neg hne, if_neg (by omega), Scalar.float, hx]
  · by_cases hfeed : e.skipBlanks.1 = true
    · have hwords := he.lineWords_of_skipBlanks hfeed
      rw [← Cursor.map_fst_lineAhead, List.map_eq_nil_iff] at hwords
      rw [hwords] at hrest
      exact Or.inr ⟨if_pos hfeed, hrest.symm⟩
    · exact Or.inl (if_neg hfeed)

/-- **The elements of a line are run over.** -/
theorem rows_of_elements {tokens rest : List Sighting} {xs row : List Single}
    {done : List (List Single)} (hc : c.FeedsLast)
    (h : elementsOf false c.lineAhead = tokens ++ rest) (hunclosed : ∀ t ∈ tokens, t.1 ≠ "]")
    (hjudged : List.Forall₂ (fun t x => Format.single.parse t.1 = .ok x) tokens xs)
    (hroom : (done ++ [row ++ xs]).flatten.length ≤ limit) :
    ∃ (d : Cursor) (found : RowsFound), d.FeedsLast ∧ elementsOf false d.lineAhead = rest ∧
      d.laterAhead = c.laterAhead ∧ found.endRow = .of (done ++ [row ++ xs]) [] ∧
      rows limit start (.of done row) c = rows limit start found d := by
  induction hjudged generalizing c row with
  | nil =>
    rw [List.append_nil]
    exact ⟨c, .of done row, hc, h, rfl, RowsFound.endRow_of done row, rfl⟩
  | @cons t x tokens xs hx hjudged ih =>
    have hassoc : row ++ x :: xs = row ++ [x] ++ xs := by simp
    rw [hassoc] at hroom ⊢
    have hcount : (RowsFound.of done row).count < limit := by
      simp only [List.flatten_append, List.flatten_singleton, List.length_append,
        List.length_singleton] at hroom
      change done.flatten.length + row.length < limit
      omega
    obtain ⟨d, found, hd, hrest, hlater, hrows, hfound⟩ :=
      rows_of_element hc h (hunclosed t List.mem_cons_self) hx hcount
    rw [RowsFound.push_of] at hfound
    rcases hfound with rfl | ⟨rfl, hnil⟩
    · obtain ⟨e, found', he, hrest', hlater', hend, hrows'⟩ :=
        ih hd hrest (fun s hs => hunclosed s (List.mem_cons_of_mem _ hs)) hroom
      exact ⟨e, found', he, hrest', hlater'.trans hlater, hend, hrows.trans hrows'⟩
    · -- the row has ended with the line, so there is nothing more to run over
      obtain ⟨rfl, rfl⟩ := List.append_eq_nil_iff.mp hnil
      cases hjudged
      rw [RowsFound.endRow_of] at hrows
      refine ⟨d, _, hd, hrest, hlater, ?_, hrows⟩
      rw [List.append_nil, ← RowsFound.endRow_of, RowsFound.endRow_endRow]

/-- **A row is run over**, up to what stands behind it on its line. -/
theorem rows_of_row {tokens rest : List Sighting} {row : List Single} {done : List (List Single)}
    (hc : c.FeedsLast) (h : c.lineAhead = tokens ++ rest) (hrow : IsRow tokens row)
    (hroom : (done ++ [row]).flatten.length ≤ limit) :
    ∃ (d : Cursor) (found : RowsFound), d.FeedsLast ∧
      elementsOf false d.lineAhead = elementsOf (endsOpen false tokens) rest ∧
      d.laterAhead = c.laterAhead ∧ found.endRow = .of (done ++ [row]) [] ∧
      rows limit start (.of done []) c = rows limit start found d := by
  have helements := (congrArg (elementsOf false) h).trans (hrow.elementsOf_append rest)
  have hroom' : (done ++ [[] ++ row]).flatten.length ≤ limit := hroom
  exact rows_of_elements hc helements
    (fun t ht => hrow.unclosed t (List.mem_filter.mp ht).1) hrow.judged hroom'

/-- **Rows are run over** line by line, up to the line behind them. -/
theorem rows_of_rows {lines later : List (List Sighting)} {last : List Sighting}
    {done rs : List (List Single)} (hc : c.FeedsLast)
    (h : c.lineAhead :: c.laterAhead = lines ++ last :: later)
    (hrows : List.Forall₂ IsRow lines rs) (hroom : (done ++ rs).flatten.length ≤ limit) :
    ∃ d : Cursor, d.FeedsLast ∧ d.lineAhead = last ∧ d.laterAhead = later ∧
      rows limit start (.of done []) c = rows limit start (.of (done ++ rs) []) d := by
  induction hrows generalizing c done with
  | nil =>
    obtain ⟨hline, hlater⟩ := List.cons.inj h
    rw [List.append_nil]
    exact ⟨c, hc, hline, hlater, rfl⟩
  | @cons line row lines rs hrow hrows ih =>
    obtain ⟨hline, hlater⟩ := List.cons.inj h
    have hassoc : done ++ row :: rs = done ++ [row] ++ rs := by simp
    rw [hassoc] at hroom ⊢
    have hroom' : (done ++ [row]).flatten.length ≤ limit := by
      rw [List.flatten_append, List.length_append] at hroom
      omega
    obtain ⟨d, found, hd, hrest, hdlater, hend, hrun⟩ :=
      rows_of_row hc (hline.trans (List.append_nil line).symm) hrow hroom'
    obtain ⟨e, htoken, helater⟩ := elementToken_of_elementsOf_nil hrest
    obtain ⟨next, behind, hnext⟩ : ∃ next behind, lines ++ last :: later = next :: behind := by
      cases lines with
      | nil => exact ⟨_, _, rfl⟩
      | cons line lines => exact ⟨_, _, rfl⟩
    obtain ⟨f, hadvance, hfline, hflater⟩ := Cursor.advance_of_laterAhead
      ((helater.trans hdlater).trans (hlater.trans hnext))
    have hf : f.FeedsLast := (e.moves_advance.of_eq hadvance).feedsLast
      (((moves_elementToken d).of_eq htoken).feedsLast hd)
    have hstep : rows limit start found d = rows limit start (.of (done ++ [row]) []) f := by
      rw [rows_eq, htoken]
      dsimp only
      rw [hadvance]
      dsimp only
      rw [hend]
    obtain ⟨g, hg, hgline, hglater, hgrows⟩ :=
      ih hf (by rw [hfline, hflater, hnext]) hroom
    exact ⟨g, hg, hgline, hglater, hrun.trans (hstep.trans hgrows)⟩

/-! ### Matrices -/

variable {limits : Limits}

/-- **Behind an opening bracket, rows are run over**, and what stands behind them decides. -/
theorem matrix_of_rowsAhead {rs : List (List Single)} {line rest : List Sighting}
    {later : List (List Sighting)} (hc : c.FeedsLast) (h : RowsAhead c rs line rest later)
    (hroom : rs.flatten.length ≤ limits.tensorElements) :
    ∃ (d : Cursor) (found : RowsFound),
      elementsOf false d.lineAhead = elementsOf (endsOpen false line) rest ∧
      d.laterAhead = later ∧ found.endRow = .of rs [] ∧
      matrix limits c = rows limits.tensorElements c.position found d := by
  obtain ⟨lines, done, row, ⟨e, first, hline, hlines⟩, hdone, hrow, rfl⟩ := h
  obtain ⟨hopen, heline, helater⟩ := openBracket_of_lineAhead hline
  have he : e.FeedsLast := ((moves_openBracket c).of_eq hopen).feedsLast hc
  have hroom' : ([] ++ done).flatten.length ≤ limits.tensorElements := by
    rw [List.flatten_append, List.length_append] at hroom
    rw [List.nil_append]
    omega
  obtain ⟨f, hf, hfline, hflater, hfrows⟩ :=
    rows_of_rows he (by rw [heline, helater, hlines]) hdone hroom'
  obtain ⟨g, found, -, hgline, hglater, hend, hgrows⟩ := rows_of_row hf hfline hrow hroom
  refine ⟨g, found, hgline, hglater.trans hflater, hend, ?_⟩
  rw [matrix, hopen]
  exact hfrows.trans hgrows

/-- A closing bracket is due wherever it stands. -/
theorem isDue_close (line : List Sighting) (d : Cursor) : IsDue line ("]", d) :=
  fun h => absurd (show "]" = "[" from h) (by decide)

/-- At the closing bracket, the rows make up the matrix. -/
theorem matrix_of_closed {rs : List (List Single)} {line after : List Sighting}
    {later : List (List Sighting)} (hc : c.FeedsLast)
    (h : RowsAhead c rs line (("]", d) :: after) later)
    (hroom : rs.flatten.length ≤ limits.tensorElements) :
    ∃ found : RowsFound, found.toList = filled rs ∧
      matrix limits c = (finish found d.position, d) := by
  obtain ⟨e, found, he, -, hend, hmatrix⟩ := matrix_of_rowsAhead hc h hroom
  rw [(isDue_close line d).elementsOf_cons] at he
  obtain ⟨htoken, -, -⟩ := elementToken_of_elementsOf he
  refine ⟨found, RowsFound.toList_of_endRow hend, ?_⟩
  rw [hmatrix, rows_eq, htoken]
  dsimp only
  rw [if_pos rfl]

theorem matrix_of_isMatrix {m : Matrix Single} (hc : c.FeedsLast)
    (h : IsMatrix limits.tensorElements c m d) : matrix limits c = (.ok m, d) := by
  obtain ⟨rs, line, after, later, hahead, hroom, hwidth, hm⟩ := h
  obtain ⟨found, hlist, hmatrix⟩ := matrix_of_closed hc hahead hroom
  obtain ⟨n, hn, htranspose⟩ := Matrix.isTransposeOf_ofRows hwidth
  rw [hmatrix, finish, hlist, hn, hm.unique htranspose]

theorem fst_matrix_of_fault {e : ParseError} (hc : c.FeedsLast)
    (h : MatrixFault limits.tensorElements c e) : (matrix limits c).1 = .error e := by
  cases h with
  | unopened h =>
    obtain ⟨d, hopen⟩ := h.exists_openBracket
    rw [matrix, hopen]
  | tooMany h full unclosed due =>
    obtain ⟨d, found, hd, -, hend, hmatrix⟩ := matrix_of_rowsAhead hc h full.le
    rw [due.elementsOf_cons] at hd
    obtain ⟨htoken, -, -⟩ := elementToken_of_elementsOf hd
    have hcount := RowsFound.count_of_endRow hend
    rw [hmatrix, rows_eq, htoken]
    dsimp only
    rw [if_neg unclosed, if_pos (by omega)]
  | refused h room unclosed due invalid =>
    obtain ⟨d, found, hd, -, hend, hmatrix⟩ := matrix_of_rowsAhead hc h room.le
    rw [due.elementsOf_cons] at hd
    obtain ⟨htoken, -, -⟩ := elementToken_of_elementsOf hd
    have hcount := RowsFound.count_of_endRow hend
    rw [hmatrix, rows_eq, htoken]
    dsimp only
    rw [if_neg unclosed, if_neg (by omega), Scalar.float, invalid]
  | unterminated h room =>
    obtain ⟨d, found, hd, hlater, -, hmatrix⟩ := matrix_of_rowsAhead hc h room
    obtain ⟨e, htoken, he⟩ := elementToken_of_elementsOf_nil hd
    obtain ⟨f, hadvance⟩ := Cursor.advance_of_laterAhead_nil (he.trans hlater)
    rw [hmatrix, rows_eq, htoken]
    dsimp only
    rw [hadvance]
  | ragged h room first =>
    obtain ⟨found, hlist, hmatrix⟩ := matrix_of_closed hc h room
    rw [hmatrix, finish, hlist, Matrix.ofRows_of_firstRagged first]

/-! ### The first token that does not pass -/

theorem isRow_nil : IsRow [] [] := ⟨fun _ h => (List.not_mem_nil h).elim, .nil, .nil⟩

/-- A bracket may stand behind anything but a bracket. -/
theorem IsRow.concat_open {line : List Sighting} {row : List Single} {t : Sighting}
    (h : IsRow line row) (hopen : t.1 = "[") (hdue : ¬IsDue line t) : IsRow (line ++ [t]) row := by
  refine ⟨fun s hs => ?_, ?_, ?_⟩
  · rcases List.mem_append.mp hs with hs | hs
    · exact h.unclosed s hs
    · rw [List.mem_singleton.mp hs, hopen]
      decide
  · refine List.isChain_append.mpr ⟨h.apart, .singleton t, ?_⟩
    rintro s hs t' - ⟨hs', -⟩
    exact hdue fun _ => ⟨s, hs, hs'⟩
  · rw [List.filter_append, List.filter_cons_of_neg (by simpa using hopen), List.filter_nil,
      List.append_nil]
    exact h.judged

/-- A number may stand behind anything. -/
theorem IsRow.concat_number {line : List Sighting} {row : List Single} {t : Sighting} {x : Single}
    (h : IsRow line row) (hclose : t.1 ≠ "]") (hx : Format.single.parse t.1 = .ok x) :
    IsRow (line ++ [t]) (row ++ [x]) := by
  have hopen : t.1 ≠ "[" := by
    intro hopen
    rw [hopen] at hx
    cases hx
  refine ⟨fun s hs => ?_, ?_, ?_⟩
  · rcases List.mem_append.mp hs with hs | hs
    · exact h.unclosed s hs
    · rwa [List.mem_singleton.mp hs]
  · refine List.isChain_append.mpr ⟨h.apart, .singleton t, ?_⟩
    rintro s - t' ht' ⟨-, ht⟩
    obtain rfl : t = t' := Option.some.inj ht'
    exact hopen ht
  · rw [List.filter_append, List.filter_cons_of_pos (by simpa using hopen), List.filter_nil]
    exact List.rel_append h.judged (.cons hx .nil)

/-- **What ends a row**, with `count` elements met so far: the end of the line, a closing bracket,
an element too many, one that is no number. -/
inductive EndsRow (limit count : Nat) (line : List Sighting) : List Sighting → Prop
  | ended : EndsRow limit count line []
  | closed {d : Cursor} {after : List Sighting} : EndsRow limit count line (("]", d) :: after)
  | full {t : Sighting} {after : List Sighting} (full : count = limit) (unclosed : t.1 ≠ "]")
      (due : IsDue line t) : EndsRow limit count line (t :: after)
  | refused {t : Sighting} {after : List Sighting} {fault : DecimalFault} (room : count < limit)
      (unclosed : t.1 ≠ "]") (due : IsDue line t)
      (invalid : Format.single.parse t.1 = .error fault) : EndsRow limit count line (t :: after)

/-- **The tokens of a line pass up to the first that ends its row.** -/
theorem exists_isRow {limit count : Nat} (rest : List Sighting) {line : List Sighting}
    {row : List Single} (h : IsRow line row) (hroom : count + row.length ≤ limit) :
    ∃ line' row' rest', line ++ rest = line' ++ rest' ∧ IsRow line' row' ∧
      count + row'.length ≤ limit ∧ EndsRow limit (count + row'.length) line' rest' := by
  induction rest generalizing line row with
  | nil => exact ⟨line, row, [], rfl, h, hroom, .ended⟩
  | cons t rest ih =>
    by_cases hclose : t.1 = "]"
    · obtain ⟨token, d⟩ := t
      obtain rfl : token = "]" := hclose
      exact ⟨line, row, _, rfl, h, hroom, .closed⟩
    · by_cases hdue : IsDue line t
      · rcases Nat.lt_or_eq_of_le hroom with hlt | hfull
        · rcases hx : Format.single.parse t.1 with fault | x
          · exact ⟨line, row, _, rfl, h, hroom, .refused hlt hclose hdue hx⟩
          · have hroom' : count + (row ++ [x]).length ≤ limit := by
              rw [List.length_append, List.length_singleton]
              omega
            rw [List.append_cons]
            exact ih (h.concat_number hclose hx) hroom'
        · exact ⟨line, row, _, rfl, h, hroom, .full hfull hclose hdue⟩
      · obtain ⟨hopen, -⟩ : t.1 = "[" ∧ _ := Classical.not_imp.mp hdue
        rw [List.append_cons]
        exact ih (h.concat_open hopen hdue) hroom

/-- One line more passes, as far as its row goes. -/
theorem exists_rowsAhead_line {limit : Nat} {passed later : List (List Sighting)}
    {line : List Sighting} {done : List (List Single)} (h : c.OpensLines (passed ++ line :: later))
    (hpassed : List.Forall₂ IsRow passed done) (hroom : done.flatten.length ≤ limit) :
    ∃ row line' rest, line = line' ++ rest ∧ IsRow line' row ∧
      RowsAhead c (done ++ [row]) line' rest later ∧ (done ++ [row]).flatten.length ≤ limit ∧
      EndsRow limit (done ++ [row]).flatten.length line' rest := by
  have hroom' : done.flatten.length + ([] : List Single).length ≤ limit := hroom
  obtain ⟨line', row, rest, hline, hrow, hcount, hends⟩ := exists_isRow line isRow_nil hroom'
  have hlength : (done ++ [row]).flatten.length = done.flatten.length + row.length := by
    rw [List.flatten_append, List.flatten_singleton, List.length_append]
  rw [List.nil_append] at hline
  rw [← hlength] at hcount hends
  rw [hline] at h
  exact ⟨row, line', rest, hline, hrow, ⟨passed, done, row, h, hpassed, hrow, rfl⟩, hcount, hends⟩

/-- **Lines pass up to the first whose row is ended by something else than the line**, or up to
the last. -/
theorem exists_rowsAhead {limit : Nat} {passed later : List (List Sighting)}
    {line : List Sighting} {done : List (List Single)} (h : c.OpensLines (passed ++ line :: later))
    (hpassed : List.Forall₂ IsRow passed done) (hroom : done.flatten.length ≤ limit) :
    ∃ rs line rest later, RowsAhead c rs line rest later ∧ rs.flatten.length ≤ limit ∧
      EndsRow limit rs.flatten.length line rest ∧ (rest = [] → later = []) := by
  induction later generalizing passed line done with
  | nil =>
    obtain ⟨row, line', rest, -, -, hahead, hcount, hends⟩ := exists_rowsAhead_line h hpassed hroom
    exact ⟨_, line', rest, [], hahead, hcount, hends, fun _ => rfl⟩
  | cons next later ih =>
    obtain ⟨row, line', rest, hline, hrow, hahead, hcount, hends⟩ :=
      exists_rowsAhead_line h hpassed hroom
    rcases rest with _ | ⟨t, rest⟩
    · rw [List.append_nil] at hline
      rw [List.append_cons] at h
      exact ih h (List.rel_append hpassed (.cons (hline ▸ hrow) .nil)) hcount
    · exact ⟨_, line', t :: rest, _, hahead, hcount, hends, fun hnil => nomatch hnil⟩

/-- A matrix stands ahead, or something is in the way of one. -/
theorem isMatrix_or_fault (limit : Nat) (c : Cursor) :
    (∃ m d, IsMatrix limit c m d) ∨ ∃ e, MatrixFault limit c e := by
  rcases opens_or_unopened c with ⟨-, d, first, hopens, rfl⟩ | ⟨e, he⟩
  · obtain ⟨rs, line, rest, later, hahead, hroom, hends, hlater⟩ :=
      exists_rowsAhead ⟨d, first, hopens, rfl⟩ .nil (Nat.zero_le limit)
    cases hends with
    | ended =>
      rw [hlater rfl] at hahead
      exact Or.inr ⟨_, .unterminated hahead hroom⟩
    | closed =>
      rcases Matrix.oneWidth_or_firstRagged (filled rs) with hwidth | ⟨r, hr⟩
      · obtain ⟨m, -, hm⟩ := Matrix.isTransposeOf_ofRows hwidth
        exact Or.inl ⟨m.transpose, _, rs, line, _, later, hahead, hroom, hwidth, hm⟩
      · exact Or.inr ⟨_, .ragged hahead hroom hr⟩
    | full full unclosed due => exact Or.inr ⟨_, .tooMany hahead full unclosed due⟩
    | refused room unclosed due invalid =>
      exact Or.inr ⟨_, .refused hahead room unclosed due invalid⟩
  · exact Or.inr ⟨e, .unopened he⟩

/-- **The grammar of matrices.** If line feeds stand at the end of their lines, a matrix is read
exactly if one stands ahead, as the transpose of its rows and with the cursor left just behind it,
and an error is reported exactly if it is what stands in the way first. -/
theorem matrix_grammar (limits : Limits) (c : Cursor) (hc : c.FeedsLast) :
    (∀ m d, matrix limits c = (.ok m, d) ↔ IsMatrix limits.tensorElements c m d) ∧
      ∀ e, (matrix limits c).1 = .error e ↔ MatrixFault limits.tensorElements c e :=
  Reading.settled (matrix_of_isMatrix hc) (fst_matrix_of_fault hc)
    (isMatrix_or_fault limits.tensorElements c)

/-- Two rows on three lines, with brackets in front of three of the four elements. -/
def spreadMatrix : Cursor :=
  .within "[ [ 1 [ 2\n".toList 0 [.text "\t[\r\n".toList, .text "3 [ 4 ] 5".toList]

theorem matrix_grammar_spreadMatrix :
    spreadMatrix.FeedsLast ∧ ∃ m d, matrix .standard spreadMatrix = (.ok m, d) ∧
      IsMatrix Limits.standard.tensorElements spreadMatrix m d ∧ m.rows = 2 ∧ m.cols = 2 ∧
      m.get? 1 0 = (Format.single.parse "2").toOption ∧ d.position = ⟨3, 7⟩ := by
  have hfeeds : spreadMatrix.FeedsLast := by
    refine ⟨by decide, fun line hline => ?_⟩
    rcases List.mem_cons.mp hline with heq | hline
    · rw [SourceLine.text.inj heq]
      decide
    · rw [SourceLine.text.inj (List.mem_singleton.mp hline)]
      decide
  have hshape : (matrix .standard spreadMatrix).1.toOption.map
        (fun m => (m.rows, m.cols, m.get? 1 0)) =
      some (2, 2, (Format.single.parse "2").toOption) := by decide +kernel
  have hplace : (matrix .standard spreadMatrix).2.position = ⟨3, 7⟩ := by decide +kernel
  rcases hmatrix : matrix .standard spreadMatrix with ⟨e | m, d⟩
  · rw [hmatrix] at hshape
    cases hshape
  · rw [hmatrix] at hshape hplace
    obtain ⟨hrows, hrest⟩ := Prod.mk.inj (Option.some.inj hshape)
    obtain ⟨hcols, hentry⟩ := Prod.mk.inj hrest
    exact ⟨hfeeds, m, d, rfl, ((matrix_grammar .standard _ hfeeds).1 m d).mp hmatrix, hrows, hcols,
      hentry, hplace⟩

end Bracketed

end NnetText
