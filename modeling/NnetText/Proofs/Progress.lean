import Mathlib.Data.List.Infix
import Mathlib.Data.Prod.Lex
import Mathlib.Order.WellFounded
import NnetText.Proofs.Correspondence
import NnetText.Proofs.Tiling

/-!
# Reading makes progress

Whatever a reader does, and however it ends, it leaves less to read than it found: what is left is
an end of what was left before (`Cursor.Consumes`). Since readers only move their cursors, this is a
fact about the four steps of a cursor (`Cursor.consumes_of_step`).

That readers come to an end at all is a matter of their loops. `Cursor.left` counts what is left to
read, the lines still to come before the bytes of the current line, and a loop *winds down* if every
iteration that does not leave it makes this smaller (`WindsDown`). Such a loop is always left
(`WindsDown.leaves`), whatever the state it is entered in. The five loops of reading are written
out as single iterations here: the elements of a vector, the elements of a row and the rows of a
matrix, the body of a declaration, and the declarations of a section. Each of them winds down, and
is left with just what the reader yields.

Three of the loops ask for a token in the same way, and go to the next line where there is none.
`Cursor.onToken` is that one iteration, and `Cursor.onPull` what it comes to in the end.
-/

namespace NnetText

/-! ### What is left to read -/

namespace Cursor

/-- The bytes left on the current line; there are none behind its end. -/
def bytesLeft (c : Cursor) : Nat := byteSize c.line - c.offset

/-- **What is left to read**: lines still to come, and then bytes of the current line. -/
def left (c : Cursor) : Nat ×ₗ Nat := toLex (c.pending.length, c.bytesLeft)

variable {c d e : Cursor}

theorem bytesLeft_of_rest {rest : List Char} (h : c.place.rest = some rest) :
    c.bytesLeft = byteSize rest := by
  have hsize := byteSize_of_suffixAt (c.place.rest_eq.symm.trans h)
  change byteSize c.place.line - c.place.offset = _
  omega

theorem left_lt_of_pending (h : d.pending.length < c.pending.length) : d.left < c.left :=
  Prod.Lex.toLex_lt_toLex.mpr (Or.inl h)

theorem left_lt_of_bytesLeft (hpending : d.pending = c.pending) (h : d.bytesLeft < c.bytesLeft) :
    d.left < c.left :=
  Prod.Lex.toLex_lt_toLex.mpr (Or.inr ⟨congrArg List.length hpending, h⟩)

theorem left_le_of_bytesLeft (hpending : d.pending = c.pending) (h : d.bytesLeft ≤ c.bytesLeft) :
    d.left ≤ c.left :=
  Prod.Lex.toLex_le_toLex.mpr (Or.inr ⟨congrArg List.length hpending, h⟩)

/-- **Taking a token** leaves less of the line. -/
theorem left_lt_of_nextToken {token : String} (h : c.nextToken = (some token, d)) :
    d.left < c.left := by
  refine left_lt_of_bytesLeft (pending_of_nextToken h) ?_
  rcases hrest : c.place.rest with _ | rest
  · have hnone : c.nextToken.1 = none := congrArg Prod.fst (LinePlace.nextToken_of_rest_none hrest)
    rw [h] at hnone
    cases hnone
  · obtain ⟨hne, -, hrest', -⟩ := of_nextToken_of_rest hrest h
    have hsize := congrArg byteSize (LinePlace.blanksOf_tokenOf_behindToken rest)
    have hpos := byteSize_pos hne
    rw [byteSize_append, byteSize_append] at hsize
    rw [bytesLeft_of_rest hrest, bytesLeft_of_rest hrest']
    omega

/-- **Going to the next line** leaves fewer lines. -/
theorem left_lt_of_advance (h : c.advance = (true, d)) : d.left < c.left :=
  left_lt_of_pending (length_pending_advance_lt h)

/-- **No step leaves more to read.** -/
theorem left_le_of_step (h : Step c d) : d.left ≤ c.left := by
  cases h with
  | token =>
    rcases hd : c.nextToken with ⟨_ | token, d⟩
    · refine left_le_of_bytesLeft (pending_of_nextToken hd) ?_
      rcases hrest : c.place.rest with _ | rest
      · have hplace : d.place = c.place := by
          obtain rfl : c.nextToken.2 = d := congrArg Prod.snd hd
          exact congrArg Prod.snd (LinePlace.nextToken_of_rest_none hrest)
        rw [bytesLeft, bytesLeft, line, line, offset, offset, hplace]
      · obtain ⟨-, hrest', -⟩ := of_nextToken_none_of_rest hrest hd
        rw [bytesLeft_of_rest hrest']
        exact Nat.zero_le _
    · exact (left_lt_of_nextToken hd).le
  | blanks =>
    refine left_le_of_bytesLeft rfl ?_
    rcases hrest : c.place.rest with _ | rest
    · have hplace : c.skipBlanks.2 = c := by
        rw [skipBlanks, LinePlace.skipBlanks_of_rest_none hrest]
      rw [hplace]
    · have hrest' : c.skipBlanks.2.place.rest = some (rest.dropWhile isBlank) :=
        congrArg (fun step => step.2.rest) (LinePlace.skipBlanks_of_rest hrest)
      have hsize := congrArg byteSize (List.takeWhile_append_dropWhile (p := isBlank) (l := rest))
      rw [byteSize_append] at hsize
      rw [bytesLeft_of_rest hrest, bytesLeft_of_rest hrest']
      omega
  | line =>
    rcases advance_cases c with ⟨-, heq⟩ | ⟨line, rest, -, heq⟩ | ⟨reason, rest, hp, heq⟩
    · rw [heq]
    · rw [heq]
      exact (left_lt_of_advance heq).le
    · rw [heq]
      exact (left_lt_of_pending (by rw [hp]; exact Nat.lt_succ_self _)).le
  | note => exact le_rfl

theorem Moves.left_le (h : c.Moves d) : d.left ≤ c.left :=
  h.of_step (fun _ _ hstep hle => (left_le_of_step hstep).trans hle) le_rfl

/-- **What is left is an end of what was left**: of the words, and of the lines to come. -/
structure Consumes (c d : Cursor) : Prop where
  words : d.unreadWords <:+ c.unreadWords
  lines : d.pending <:+ c.pending
  lineNumber : c.lineNumber ≤ d.lineNumber

theorem Consumes.refl (c : Cursor) : c.Consumes c :=
  ⟨List.suffix_rfl, List.suffix_rfl, le_rfl⟩

theorem Consumes.trans (h : c.Consumes d) (h' : d.Consumes e) : c.Consumes e :=
  ⟨h'.words.trans h.words, h'.lines.trans h.lines, h.lineNumber.trans h'.lineNumber⟩

/-- **Every step only consumes**, also one to a line that is asked for too early. -/
theorem consumes_of_step (h : Step c d) : c.Consumes d := by
  cases h with
  | token =>
    refine ⟨?_, List.suffix_rfl, le_rfl⟩
    rcases hd : c.nextToken with ⟨_ | token, d⟩
    · rw [unreadWords_of_nextToken_none hd]
    · rw [unreadWords_of_nextToken hd]
      exact List.suffix_cons token _
  | blanks =>
    refine ⟨?_, List.suffix_rfl, le_rfl⟩
    rw [unreadWords_skipBlanks]
  | line =>
    rcases advance_cases c with ⟨-, heq⟩ | ⟨line, rest, hp, heq⟩ | ⟨reason, rest, hp, heq⟩
    · rw [heq]
      exact .refl c
    · rw [heq]
      refine ⟨?_, ⟨[.text line], hp.symm⟩, Nat.le_succ _⟩
      -- what is left of the current line is given up
      refine ⟨c.lineWords, ?_⟩
      rw [unreadWords.eq_def c, hp]
      rfl
    · rw [heq]
      refine ⟨?_, ⟨[.failed reason], hp.symm⟩, le_rfl⟩
      rw [unreadWords_note, unreadWords, unreadWords, hp]
      exact List.suffix_rfl
  | note => exact ⟨List.suffix_rfl, List.suffix_rfl, le_rfl⟩

/-- **All of reading only consumes.** -/
theorem Moves.consumes (h : c.Moves d) : c.Consumes d :=
  h.of_step (fun _ _ hstep hc => hc.trans (consumes_of_step hstep)) (.refl c)

end Cursor

/-! ### Loops

A loop is given by its iteration: a state leads to another one, or the loop is left with a
result. -/

section Loops

variable {σ ρ : Type}

/-- **A loop is left with a result**, after any number of iterations. -/
inductive LeavesWith (iteration : σ → σ ⊕ ρ) : σ → ρ → Prop
  | done {s : σ} {r : ρ} (h : iteration s = .inr r) : LeavesWith iteration s r
  | more {s t : σ} {r : ρ} (h : iteration s = .inl t) (rest : LeavesWith iteration t r) :
      LeavesWith iteration s r

/-- **A loop winds down**: an iteration that does not leave it leaves less to read. -/
def WindsDown (cursor : σ → Cursor) (iteration : σ → σ ⊕ ρ) : Prop :=
  ∀ s t, iteration s = .inl t → (cursor t).left < (cursor s).left

/-- What a loop comes to behind an iteration, given what it comes to from each state on. -/
def thereafter (outcome : σ → ρ) : σ ⊕ ρ → ρ
  | .inl t => outcome t
  | .inr r => r

/-- **A loop that winds down is left**, and with what it comes to: with `outcome`, if that is the
same before and after each iteration. -/
theorem WindsDown.leaves {cursor : σ → Cursor} {iteration : σ → σ ⊕ ρ}
    (h : WindsDown cursor iteration) (outcome : σ → ρ)
    (houtcome : ∀ s, outcome s = thereafter outcome (iteration s)) (s : σ) :
    LeavesWith iteration s (outcome s) := by
  induction hn : (cursor s).left using WellFoundedLT.induction generalizing s with
  | ind n ih =>
    rw [houtcome s]
    cases hs : iteration s with
    | inl t => exact .more hs (ih _ (hn ▸ h s t hs) t rfl)
    | inr r => exact .done hs

end Loops

namespace Cursor

/-- **Asking for a token**: `met` goes on with it. Where the current line has none, `line` goes on
with the next line, or `dry` without one. -/
def onToken {β : Type} (line dry : Cursor → β) (met : String → Cursor → β) (c : Cursor) : β :=
  match c.nextToken with
  | (some token, d) => met token d
  | (none, d) =>
    match d.advance with
    | (true, e) => line e
    | (false, e) => dry e

/-- Asking for a token on whatever line it stands. -/
def onPull {β : Type} (dry : Cursor → β) (met : String → Cursor → β) (c : Cursor) : β :=
  match c.pull with
  | (some token, d) => met token d
  | (none, d) => dry d

section

variable {σ ρ : Type} {c : Cursor} {again : Cursor → σ} {dry : Cursor → ρ}
  {met : String → Cursor → σ ⊕ ρ}

/-- **An iteration that asks for a token** and does not leave its loop has taken a token, or gone to
the next line. -/
theorem onToken_eq_inl {t : σ}
    (h : c.onToken (fun e => .inl (again e)) (fun e => .inr (dry e)) met = .inl t) :
    (∃ e, e.left < c.left ∧ t = again e) ∨ ∃ token d, d.left < c.left ∧ met token d = .inl t := by
  rcases hd : c.nextToken with ⟨_ | token, d⟩
  · rcases he : d.advance with ⟨_ | _, e⟩
    · simp only [onToken, hd, he, reduceCtorEq] at h
    · simp only [onToken, hd, he] at h
      have hle := (c.moves_nextToken.of_eq hd).left_le
      exact Or.inl ⟨e, (left_lt_of_advance he).trans_le hle, (Sum.inl.inj h).symm⟩
  · simp only [onToken, hd] at h
    exact Or.inr ⟨token, d, left_lt_of_nextToken hd, h⟩

/-- **Going line by line comes to asking on whatever line a token stands.** -/
theorem thereafter_onToken {outcome : σ → ρ}
    (h : ∀ e, outcome (again e) =
      e.onPull dry (fun token d => thereafter outcome (met token d))) (c : Cursor) :
    thereafter outcome (c.onToken (fun e => .inl (again e)) (fun e => .inr (dry e)) met) =
      c.onPull dry (fun token d => thereafter outcome (met token d)) := by
  rcases hd : c.nextToken with ⟨_ | token, d⟩
  · rcases he : d.advance with ⟨_ | _, e⟩
    · simp only [onToken, onPull, hd, he, pull_of_advance_false hd he]
      rfl
    · simp only [onToken, onPull, hd, he, pull_of_advance hd he]
      exact h e
  · simp only [onToken, onPull, hd, pull_of_nextToken hd]

end

end Cursor

/-! ### The elements of a vector -/

namespace Bracketed

section Elements

variable {α : Type} {limit : Nat} {judge : String → Position → Except ParseError α}
  {start : Position}

/-- What is done with a token between the brackets of a vector. -/
def takeElement (limit : Nat) (judge : String → Position → Except ParseError α) (start : Position)
    (found : List α) (token : String) (d : Cursor) : (List α × Cursor) ⊕ Reading (List α) :=
  if token = "]" then .inr (.ok found.reverse, d)
  else if limit ≤ found.length then .inr (.error (.tooManyElements .vector limit start), d)
  else
    match judge token d.position with
    | .error e => .inr (.error e, d)
    | .ok x => .inl (x :: found, d)

/-- **One iteration over a vector.** -/
def elementsIteration (limit : Nat) (judge : String → Position → Except ParseError α)
    (start : Position) (s : List α × Cursor) : (List α × Cursor) ⊕ Reading (List α) :=
  s.2.onToken (fun e => .inl (s.1, e)) (fun e => .inr (.error (.unterminatedVector start), e))
    (takeElement limit judge start s.1)

theorem snd_of_takeElement {found : List α} {token : String} {d : Cursor} {t : List α × Cursor}
    (h : takeElement limit judge start found token d = .inl t) : t.2 = d := by
  unfold takeElement at h
  split at h
  · cases h
  · split at h
    · cases h
    · cases hx : judge token d.position with
      | error e => simp only [hx, reduceCtorEq] at h
      | ok x =>
        simp only [hx] at h
        rw [← Sum.inl.inj h]

theorem windsDown_elementsIteration :
    WindsDown Prod.snd (elementsIteration limit judge start) := by
  rintro ⟨found, c⟩ t h
  rcases Cursor.onToken_eq_inl h with ⟨e, hlt, rfl⟩ | ⟨token, d, hlt, hmet⟩
  · exact hlt
  · rwa [snd_of_takeElement hmet]

theorem elements_eq_onPull (found : List α) (c : Cursor) :
    elements limit judge start found c =
      c.onPull (fun e => (.error (.unterminatedVector start), e)) (fun token d =>
        thereafter (fun s => elements limit judge start s.1 s.2)
          (takeElement limit judge start found token d)) := by
  rw [elements_eq]
  rcases hpull : c.pull with ⟨_ | token, d⟩
  · simp only [Cursor.onPull, hpull]
  · simp only [Cursor.onPull, hpull, takeElement]
    split
    · rfl
    · split
      · rfl
      · cases judge token d.position <;> rfl

/-- **The loop over a vector is left** with what the vector is read as. -/
theorem leaves_elements (found : List α) (c : Cursor) :
    LeavesWith (elementsIteration limit judge start) (found, c)
      (elements limit judge start found c) := by
  refine windsDown_elementsIteration.leaves (fun s => elements limit judge start s.1 s.2) ?_
    (found, c)
  rintro ⟨found, c⟩
  exact (elements_eq_onPull found c).trans
    (Cursor.thereafter_onToken (elements_eq_onPull found) c).symm

end Elements

/-! ### The rows of a matrix

There are two loops, one inside the other: over the elements of a row, and over the rows. -/

/-- **What ends a row.** -/
inductive RowEnd where
  /-- The closing bracket. -/
  | bracket
  /-- A line feed with more of the line behind it. -/
  | feed
  /-- The end of the line. -/
  | line
deriving DecidableEq, Repr

section Rows

variable {limit : Nat} {start : Position} {s t : RowsFound × Cursor}

/-- **One iteration over a row.** -/
def rowIteration (limit : Nat) (start : Position) (s : RowsFound × Cursor) :
    (RowsFound × Cursor) ⊕ (Except ParseError RowEnd × RowsFound × Cursor) :=
  match elementToken s.2 with
  | (none, d) => .inr (.ok .line, s.1, d)
  | (some token, d) =>
    if token = "]" then .inr (.ok .bracket, s.1, d)
    else if limit ≤ s.1.count then .inr (.error (.tooManyElements .matrix limit start), s.1, d)
    else
      match Scalar.float .single token d.position with
      | .error e => .inr (.error e, s.1, d)
      | .ok x =>
        if d.skipBlanks.1 then .inr (.ok .feed, s.1.push x, d.skipBlanks.2)
        else .inl (s.1.push x, d.skipBlanks.2)

theorem left_lt_of_elementToken {c d : Cursor} {token : String}
    (h : elementToken c = (some token, d)) : d.left < c.left := by
  unfold elementToken at h
  split at h
  · rename_i e he
    exact (Cursor.left_lt_of_nextToken h).trans (Cursor.left_lt_of_nextToken he)
  · exact Cursor.left_lt_of_nextToken h

/-- Behind an element, and behind the blanks after it, less is left to read. -/
theorem left_skipBlanks_lt {c d : Cursor} {token : String} (h : elementToken c = (some token, d)) :
    d.skipBlanks.2.left < c.left :=
  d.moves_skipBlanks.left_le.trans_lt (left_lt_of_elementToken h)

/-- What an iteration over a row leaves to read: less, if it has taken an element. -/
def RowLeaves (c : Cursor) :
    (RowsFound × Cursor) ⊕ (Except ParseError RowEnd × RowsFound × Cursor) → Prop
  | .inl t => t.2.left < c.left
  | .inr (r, _, d) => d.left ≤ c.left ∧ (r = .ok .feed → d.left < c.left)

theorem rowLeaves_rowIteration (limit : Nat) (start : Position) (s : RowsFound × Cursor) :
    RowLeaves s.2 (rowIteration limit start s) := by
  unfold rowIteration
  rcases htoken : elementToken s.2 with ⟨_ | token, d⟩
  · exact ⟨((moves_elementToken s.2).of_eq htoken).left_le, fun h => by cases h⟩
  · have hlt := left_lt_of_elementToken htoken
    have hskip := left_skipBlanks_lt htoken
    simp only
    split
    · exact ⟨hlt.le, fun h => by cases h⟩
    · split
      · exact ⟨hlt.le, fun h => by cases h⟩
      · cases Scalar.float .single token d.position with
        | error e => exact ⟨hlt.le, fun h => by cases h⟩
        | ok x =>
          simp only
          split
          · exact ⟨hskip.le, fun _ => hskip⟩
          · exact hskip

theorem windsDown_rowIteration : WindsDown Prod.snd (rowIteration limit start) := by
  intro s t h
  have hleaves := rowLeaves_rowIteration limit start s
  rwa [h] at hleaves

/-- **A row**, with what ends it. -/
def row (limit : Nat) (start : Position) (s : RowsFound × Cursor) :
    Except ParseError RowEnd × RowsFound × Cursor :=
  match _h : rowIteration limit start s with
  | .inl t => row limit start t
  | .inr r => r
termination_by s.2.left
decreasing_by exact windsDown_rowIteration _ _ _h

theorem row_eq (limit : Nat) (start : Position) (s : RowsFound × Cursor) :
    row limit start s = thereafter (row limit start) (rowIteration limit start s) := by
  rw [row]
  split <;> rename_i h <;> rw [h] <;> rfl

/-- **The loop over a row is left** with the row. -/
theorem leaves_row (s : RowsFound × Cursor) :
    LeavesWith (rowIteration limit start) s (row limit start s) :=
  windsDown_rowIteration.leaves (row limit start) (row_eq limit start) s

/-- A row leaves less to read if it ends at a line feed, and in no case more. -/
theorem left_of_row {r : Except ParseError RowEnd} {found : RowsFound} {d : Cursor}
    (h : row limit start s = (r, found, d)) :
    d.left ≤ s.2.left ∧ (r = .ok .feed → d.left < s.2.left) := by
  fun_induction row limit start s with
  | case1 s t ht ih =>
    have hlt := windsDown_rowIteration s t ht
    obtain ⟨hle, hfeed⟩ := ih h
    exact ⟨hle.trans hlt.le, fun hr => (hfeed hr).trans hlt⟩
  | case2 s r' hr' =>
    have hleaves := rowLeaves_rowIteration limit start s
    rwa [hr', h] at hleaves

/-- What is done behind a row. -/
def afterRow (start : Position) (r : Except ParseError RowEnd × RowsFound × Cursor) :
    (RowsFound × Cursor) ⊕ Reading (Matrix Single) :=
  match r with
  | (.error e, _, d) => .inr (.error e, d)
  | (.ok .bracket, found, d) => .inr (finish found d.position, d)
  | (.ok .feed, found, d) => .inl (found.endRow, d)
  | (.ok .line, found, d) =>
    match d.advance with
    | (true, e) => .inl (found.endRow, e)
    | (false, e) => .inr (.error (.unterminatedMatrix start), e)

/-- **One iteration over a matrix.** -/
def rowsIteration (limit : Nat) (start : Position) (s : RowsFound × Cursor) :
    (RowsFound × Cursor) ⊕ Reading (Matrix Single) :=
  afterRow start (row limit start s)

theorem windsDown_rowsIteration : WindsDown Prod.snd (rowsIteration limit start) := by
  intro s t h
  rcases hrow : row limit start s with ⟨_ | _ | _ | _, found, d⟩
  all_goals
    obtain ⟨hle, hfeed⟩ := left_of_row hrow
    rw [rowsIteration, hrow, afterRow] at h
  · cases h
  · cases h
  · cases h
    exact hfeed rfl
  · -- the line is used up, so that another one is asked for
    rcases hadvance : d.advance with ⟨_ | _, e⟩
    · simp only [hadvance, reduceCtorEq] at h
    · simp only [hadvance] at h
      cases h
      exact (Cursor.left_lt_of_advance hadvance).trans_le hle

/-- The rows go on behind an element, or behind the row it ends. -/
theorem rows_eq_rowIteration (limit : Nat) (start : Position) (s : RowsFound × Cursor) :
    rows limit start s.1 s.2 =
      (rowIteration limit start s).elim (fun t => rows limit start t.1 t.2)
        (fun r => thereafter (fun t => rows limit start t.1 t.2) (afterRow start r)) := by
  rw [rows_eq, rowIteration]
  rcases elementToken s.2 with ⟨_ | token, d⟩
  · rcases hadvance : d.advance with ⟨_ | _, e⟩ <;>
      simp only [Sum.elim_inr, afterRow, hadvance, thereafter]
  · simp only
    split
    · rfl
    · split
      · rfl
      · cases Scalar.float .single token d.position with
        | error e => rfl
        | ok x => cases d.skipBlanks.1 <;> rfl

/-- **The loop over a matrix is left** with what the matrix is read as. -/
theorem leaves_rows (s : RowsFound × Cursor) :
    LeavesWith (rowsIteration limit start) s (rows limit start s.1 s.2) := by
  refine windsDown_rowsIteration.leaves (fun s => rows limit start s.1 s.2) (fun s => ?_) s
  rw [rowsIteration]
  fun_induction row limit start s with
  | case1 s t ht ih =>
    rw [rows_eq_rowIteration, ht]
    exact ih
  | case2 s r hr =>
    rw [rows_eq_rowIteration, hr]
    rfl

end Rows

end Bracketed

/-! ### The body of a declaration -/

namespace Component

variable {limits : Limits} {ends : List String}

/-- What is done with a token in the body of a declaration. -/
def takeAttribute (limits : Limits) (ends : List String) (record : Component) (token : String)
    (d : Cursor) : (Component × Cursor) ⊕ (Except ParseError String × Component × Cursor) :=
  if token ∈ ends then .inr (.ok token, record, d)
  else
    match record.kind.rule? token with
    | none => .inl (record, noteSkipped record.name token d)
    | some rule =>
      match rule.literal.read limits d with
      | (.error e, e') => .inr (.error e, record, e')
      | (.ok value, e') => .inl (record.setAttribute rule.key value, e')

/-- **One iteration over the body of a declaration.** -/
def collectIteration (limits : Limits) (ends : List String) (s : Component × Cursor) :
    (Component × Cursor) ⊕ (Except ParseError String × Component × Cursor) :=
  s.2.onToken (fun e => .inl (s.1, e))
    (fun e => .inr (.error (.unexpectedEndOfInput e.position), s.1, e))
    (takeAttribute limits ends s.1)

theorem moves_of_takeAttribute {record : Component} {token : String} {d : Cursor}
    {t : Component × Cursor} (h : takeAttribute limits ends record token d = .inl t) :
    d.Moves t.2 := by
  unfold takeAttribute at h
  split at h
  · cases h
  · cases hrule : record.kind.rule? token with
    | none =>
      simp only [hrule] at h
      cases h
      exact moves_noteSkipped _ _ _
    | some rule =>
      rcases hread : rule.literal.read limits d with ⟨_ | value, e⟩
      · simp only [hrule, hread, reduceCtorEq] at h
      · simp only [hrule, hread] at h
        cases h
        exact (rule.literal.moves_read limits d).of_eq hread

theorem windsDown_collectIteration : WindsDown Prod.snd (collectIteration limits ends) := by
  rintro ⟨record, c⟩ t h
  rcases Cursor.onToken_eq_inl h with ⟨e, hlt, rfl⟩ | ⟨token, d, hlt, hmet⟩
  · exact hlt
  · exact (moves_of_takeAttribute hmet).left_le.trans_lt hlt

theorem collect_eq_onPull (record : Component) (c : Cursor) :
    collect limits ends record c =
      c.onPull (fun e => (.error (.unexpectedEndOfInput e.position), record, e)) (fun token d =>
        thereafter (fun s => collect limits ends s.1 s.2)
          (takeAttribute limits ends record token d)) := by
  rw [collect_eq]
  rcases hpull : c.pull with ⟨_ | token, d⟩
  · simp only [Cursor.onPull, hpull]
  · simp only [Cursor.onPull, hpull, takeAttribute]
    split
    · rfl
    · cases record.kind.rule? token with
      | none => rfl
      | some rule =>
        rcases hread : rule.literal.read limits d with ⟨_ | value, e⟩ <;>
          simp only [hread, thereafter]

/-- **The loop over the body of a declaration is left** with what is collected from it. -/
theorem leaves_collect (record : Component) (c : Cursor) :
    LeavesWith (collectIteration limits ends) (record, c) (collect limits ends record c) := by
  refine windsDown_collectIteration.leaves (fun s => collect limits ends s.1 s.2) ?_ (record, c)
  rintro ⟨record, c⟩
  exact (collect_eq_onPull record c).trans
    (Cursor.thereafter_onToken (collect_eq_onPull record) c).symm

end Component

/-! ### The declarations of a section -/

namespace Section

variable {limits : Limits}

/-- What is done behind an opener. -/
def takeDeclaration (limits : Limits) (found : List Component) (c : Cursor) :
    Stage ⊕ Reading (List Component) :=
  if limits.components ≤ found.length then
    .inr (.error (.tooManyComponents limits.components), c)
  else
    match declaration limits found.length c with
    | (.error e, d) => .inr (.error e, d)
    | (.ok (component, next), d) => .inl ⟨component :: found, next, d⟩

/-- What is done with a token between declarations. -/
def takeToken (limits : Limits) (found : List Component) (token : String) (d : Cursor) :
    Stage ⊕ Reading (List Component) :=
  if token = Tag.sectionEnd then .inr (close found d)
  else if token = Tag.opener then takeDeclaration limits found d
  else .inl ⟨found, false, d⟩

/-- **One iteration over a section.** Where an opener has been passed already, no token is asked
for. -/
def iteration (limits : Limits) (s : Stage) : Stage ⊕ Reading (List Component) :=
  if s.opened then takeDeclaration limits s.found s.cursor
  else
    s.cursor.onToken (fun e => .inl ⟨s.found, false, e⟩) (fun e => .inr (close s.found e))
      (takeToken limits s.found)

/-- **A declaration leaves less to read**, since it has taken a name at least. -/
theorem left_lt_of_declaration {id : Nat} {c d : Cursor} {r : Component × Bool}
    (h : declaration limits id c = (.ok r, d)) : d.left < c.left := by
  obtain ⟨component, next⟩ := r
  cases DeclarationOutcome.of_eq h with
  | complete hname htag _ hbody =>
    have htype := ((moves_typeTag _).of_eq htag).left_le
    have hattributes := ((Component.moves_readAttributes limits _ _ _).of_eq
      (congrArg Prod.snd hbody)).left_le
    exact (hattributes.trans htype).trans_lt (Cursor.left_lt_of_nextToken hname)

theorem left_lt_of_takeDeclaration {found : List Component} {c : Cursor} {t : Stage}
    (h : takeDeclaration limits found c = .inl t) : t.cursor.left < c.left := by
  unfold takeDeclaration at h
  split at h
  · cases h
  · rcases hd : declaration limits found.length c with ⟨_ | ⟨component, next⟩, d⟩
    · simp only [hd, reduceCtorEq] at h
    · simp only [hd] at h
      cases h
      exact left_lt_of_declaration hd

theorem windsDown_iteration : WindsDown Stage.cursor (iteration limits) := by
  rintro ⟨found, _ | _, c⟩ t h
  · rcases Cursor.onToken_eq_inl h with ⟨e, hlt, rfl⟩ | ⟨token, d, hlt, hmet⟩
    · exact hlt
    · unfold takeToken at hmet
      split at hmet
      · cases hmet
      · split at hmet
        · exact (left_lt_of_takeDeclaration hmet).trans hlt
        · cases hmet
          exact hlt
  · exact left_lt_of_takeDeclaration h

/-- What a run comes to from a stage on. -/
def outcome (limits : Limits) (s : Stage) : Reading (List Component) := (s.run limits).result

theorem outcome_opened (found : List Component) (c : Cursor) :
    outcome limits ⟨found, true, c⟩ =
      thereafter (outcome limits) (takeDeclaration limits found c) := by
  unfold takeDeclaration
  split
  · rename_i hfull
    rw [outcome, Stage.run_of_stop (Stage.step_of_full rfl hfull)]
    rfl
  · rename_i hroom
    rcases hd : declaration limits found.length c with ⟨e | ⟨component, next⟩, d⟩
    · rw [outcome, Stage.run_of_stop (Stage.step_of_error rfl (Nat.lt_of_not_le hroom) hd)]
      rfl
    · rw [outcome, Stage.run_of_step (Stage.step_of_declaration rfl (Nat.lt_of_not_le hroom) hd)]
      rfl

theorem outcome_eq_onPull (found : List Component) (c : Cursor) :
    outcome limits ⟨found, false, c⟩ =
      c.onPull (close found) (fun token d =>
        thereafter (outcome limits) (takeToken limits found token d)) := by
  rcases hpull : c.pull with ⟨_ | token, d⟩
  · rw [outcome, Stage.run_of_stop (Stage.step_of_inputEnd rfl hpull), Cursor.onPull, hpull]
    rfl
  · simp only [Cursor.onPull, hpull, takeToken]
    split
    · rename_i hend
      rw [outcome, Stage.run_of_stop (Stage.step_of_sectionEnd rfl (hend ▸ hpull))]
      rfl
    · rename_i hend
      rw [outcome, Stage.run_of_step (Stage.step_of_token rfl hpull hend)]
      split
      · rename_i hopen
        rw [beq_iff_eq.mpr hopen, ← outcome_opened]
        rfl
      · rename_i hopen
        rw [beq_eq_false_iff_ne.mpr hopen]
        rfl

/-- **The loop over a section is left** with what the section is read as. -/
theorem leaves_read (limits : Limits) (c : Cursor) :
    LeavesWith (iteration limits) (Stage.start c) (read limits c) := by
  have houtcome : ∀ s, outcome limits s = thereafter (outcome limits) (iteration limits s) := by
    rintro ⟨found, _ | _, c⟩
    · exact (outcome_eq_onPull found c).trans
        (Cursor.thereafter_onToken (outcome_eq_onPull found) c).symm
    · exact outcome_opened found c
  rw [read_eq_run]
  exact windsDown_iteration.leaves (outcome limits) houtcome (Stage.start c)

/-- **Reading a section moves its cursor.** -/
theorem moves_read (limits : Limits) (c : Cursor) : c.Moves (read limits c).2 := by
  obtain ⟨s, hreaches, hstop⟩ := Stage.exists_reaches_stop limits (Stage.start c)
  have hmoves : c.Moves s.cursor := Stage.moves_of_reaches hreaches
  rw [read_eq_run]
  rcases Stage.step_eq_inr hstop with ⟨-, -, heq⟩ | ⟨-, -, e, d, hd, heq⟩ | ⟨-, d, hd, heq⟩ |
    ⟨-, d, hd, heq⟩
  · rw [heq]
    exact hmoves
  · rw [heq]
    exact hmoves.trans ((moves_declaration limits _ s.cursor).of_eq hd)
  · rw [heq]
    exact (hmoves.trans (Cursor.moves_of_pull hd)).trans (d.moves_note _)
  · rw [heq]
    exact (hmoves.trans (Cursor.moves_of_pull hd)).trans (d.moves_note _)

end Section

/-! ### All readers -/

/-- **A loop ends**: it winds down, and it is left with a result. -/
structure EndsWith {σ ρ : Type} (cursor : σ → Cursor) (iteration : σ → σ ⊕ ρ) (s : σ) (r : ρ) :
    Prop where
  windsDown : WindsDown cursor iteration
  leaves : LeavesWith iteration s r

/-- **The words of a bracketed literal are taken**, from its opening bracket to the first closing
one. -/
def TakesBracketed (c d : Cursor) : Prop :=
  ∃ tokens, c.unreadWords = "[" :: tokens ++ "]" :: d.unreadWords ∧ "]" ∉ tokens

namespace Bracketed

theorem takesBracketed_of_vector {α : Type} {limits : Limits}
    {judge : String → Position → Except ParseError α} {c d : Cursor} {xs : List α}
    (h : vector limits judge c = (.ok xs, d)) : TakesBracketed c d := by
  obtain ⟨tokens, hwords, hall⟩ := exists_unreadWords_of_vector h
  exact ⟨tokens, hwords, fun hmem => (hall _ hmem).1 rfl⟩

theorem takesBracketed_of_matrix {limits : Limits} {c d : Cursor} {m : Matrix Single}
    (h : matrix limits c = (.ok m, d)) : TakesBracketed c d := by
  obtain ⟨tokens, hwords, hall⟩ := exists_unreadWords_of_matrix h
  refine ⟨tokens, hwords, fun hmem => ?_⟩
  rcases hall _ hmem with hopen | ⟨hclose, -⟩
  · exact absurd hopen (by decide)
  · exact hclose rfl

/-- Behind its opening bracket, a vector is its loop. -/
theorem endsWith_vector {α : Type} {limits : Limits}
    {judge : String → Position → Except ParseError α} {c d : Cursor} {start : Position}
    (h : openBracket c = (.ok start, d)) :
    EndsWith Prod.snd (elementsIteration limits.tensorElements judge start) ([], d)
      (vector limits judge c) := by
  refine ⟨windsDown_elementsIteration, ?_⟩
  simp only [vector, h]
  exact leaves_elements [] d

/-- Behind its opening bracket, a matrix is its loop. -/
theorem endsWith_matrix {limits : Limits} {c d : Cursor} {start : Position}
    (h : openBracket c = (.ok start, d)) :
    EndsWith Prod.snd (rowsIteration limits.tensorElements start) (.none, d)
      (matrix limits c) := by
  refine ⟨windsDown_rowsIteration, ?_⟩
  simp only [matrix, h]
  exact leaves_rows (.none, d)

end Bracketed

/-- A scalar is looked for on the current line only. -/
theorem Scalar.lineNumber_read {α : Type} (expected : Expected)
    (judge : String → Position → Except ParseError α) (c : Cursor) :
    (Scalar.read expected judge c).2.lineNumber = c.lineNumber := by
  unfold Scalar.read
  rcases hd : c.nextToken with ⟨_ | token, d⟩
  all_goals exact Cursor.lineNumber_of_nextToken hd

/-- **Reading makes progress.** Wherever a cursor stands, and whatever lines are still to come,
each reader only consumes, whether it succeeds or fails. A scalar stays on its line and is one word;
a bracketed literal is the words from its opening bracket to the first closing one. Every loop ends
with what its reader yields, since each iteration leaves fewer lines to come, or as many and fewer
bytes of the current line, or leaves the loop. -/
theorem progress_of_reading (limits : Limits) (c : Cursor) :
    (∀ {α : Type} (expected : Expected) (judge : String → Position → Except ParseError α),
      c.Consumes (Scalar.read expected judge c).2 ∧
      (Scalar.read expected judge c).2.lineNumber = c.lineNumber ∧
      ∀ x d, Scalar.read expected judge c = (.ok x, d) →
        ∃ token, c.unreadWords = token :: d.unreadWords) ∧
    (∀ {α : Type} (judge : String → Position → Except ParseError α),
      c.Consumes (Bracketed.vector limits judge c).2 ∧
      (∀ xs d, Bracketed.vector limits judge c = (.ok xs, d) → TakesBracketed c d) ∧
      ∀ start d, Bracketed.openBracket c = (.ok start, d) →
        EndsWith Prod.snd (Bracketed.elementsIteration limits.tensorElements judge start) ([], d)
          (Bracketed.vector limits judge c)) ∧
    (c.Consumes (Bracketed.matrix limits c).2 ∧
      (∀ m d, Bracketed.matrix limits c = (.ok m, d) → TakesBracketed c d) ∧
      (∀ start found,
        EndsWith Prod.snd (Bracketed.rowIteration limits.tensorElements start) (found, c)
          (Bracketed.row limits.tensorElements start (found, c))) ∧
      ∀ start d, Bracketed.openBracket c = (.ok start, d) →
        EndsWith Prod.snd (Bracketed.rowsIteration limits.tensorElements start) (.none, d)
          (Bracketed.matrix limits c)) ∧
    (∀ ends record, c.Consumes (Component.readAttributes limits ends record c).2.2 ∧
      EndsWith Prod.snd (Component.collectIteration limits ends) (record, c)
        (Component.collect limits ends record c)) ∧
    c.Consumes (Section.read limits c).2 ∧
    EndsWith Section.Stage.cursor (Section.iteration limits) (.start c)
      (Section.read limits c) := by
  refine ⟨fun expected judge => ⟨?_, ?_, ?_⟩, fun judge => ⟨?_, ?_, ?_⟩, ⟨?_, ?_, ?_, ?_⟩,
    fun ends record => ⟨?_, ?_⟩, ?_, ?_⟩
  · exact (Scalar.moves_read expected judge c).consumes
  · exact Scalar.lineNumber_read expected judge c
  · intro x d h
    obtain ⟨token, hwords, -⟩ := Scalar.unreadWords_of_read h
    exact ⟨token, hwords⟩
  · exact (Bracketed.moves_vector limits judge c).consumes
  · exact fun xs d h => Bracketed.takesBracketed_of_vector h
  · exact fun start d h => Bracketed.endsWith_vector h
  · exact (Bracketed.moves_matrix limits c).consumes
  · exact fun m d h => Bracketed.takesBracketed_of_matrix h
  · exact fun start found => ⟨Bracketed.windsDown_rowIteration, Bracketed.leaves_row (found, c)⟩
  · exact fun start d h => Bracketed.endsWith_matrix h
  · exact (Component.moves_readAttributes limits ends record c).consumes
  · exact ⟨Component.windsDown_collectIteration, Component.leaves_collect record c⟩
  · exact (Section.moves_read limits c).consumes
  · exact ⟨Section.windsDown_iteration, Section.leaves_read limits c⟩

/-- A matrix that starts behind a letter of two bytes and goes on in the next line, with a line that
cannot be decoded behind it. -/
def wideMatrix : Cursor :=
  .within "é [ 1 [".toList 2
    [.text "2 ] 3\n".toList, .failed SourceLine.malformedText, .text "[ 4".toList]

/-- From inside a line, a matrix is read up to its closing bracket on the next one. -/
theorem progress_of_reading_wideMatrix :
    ∃ m d, Bracketed.matrix .standard wideMatrix = (.ok m, d) ∧ wideMatrix.Consumes d ∧
      TakesBracketed wideMatrix d ∧
      EndsWith Prod.snd (Bracketed.rowsIteration Limits.standard.tensorElements ⟨1, 2⟩)
        (.none, wideMatrix.nextToken.2) (Bracketed.matrix .standard wideMatrix) := by
  have hok : (Bracketed.matrix .standard wideMatrix).1.toOption.isSome = true := by decide +kernel
  have hopen : Bracketed.openBracket wideMatrix = (.ok ⟨1, 2⟩, wideMatrix.nextToken.2) := by
    decide +kernel
  obtain ⟨-, -, ⟨hconsumes, htakes, -, hends⟩, -⟩ := progress_of_reading .standard wideMatrix
  have hloop := hends _ _ hopen
  rcases hmatrix : Bracketed.matrix .standard wideMatrix with ⟨e | m, d⟩
  · rw [hmatrix] at hok
    cases hok
  · rw [hmatrix] at hconsumes hloop
    exact ⟨m, d, rfl, hconsumes, htakes m d hmatrix, hloop⟩

end NnetText
