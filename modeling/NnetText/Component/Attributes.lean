import NnetText.Component.Promotion

/-!
# The body of a declaration

The body is a stream of tokens. A token that ends the body stops the reading; a tag of the kind's
table is followed by a value, which is written under the tag's key; every other token is passed
over by itself, and noticed if it looks like a tag. When the end is reached the record is
finished.

The record as it stands is handed back after a failure too.
-/

namespace NnetText.Component

/-- A token that is passed over leaves a notice if it starts like a tag. -/
def noteSkipped (component token : String) (c : Cursor) : Cursor :=
  if ['<'].isPrefixOf token.toList then c.note (.skippedTag component token c.position) else c

theorem remaining_noteSkipped (component token : String) (c : Cursor) :
    (noteSkipped component token c).remaining = c.remaining := by
  unfold noteSkipped
  split <;> rfl

/-- Writes attributes into a record up to one of the tokens that end its body. -/
def collect (limits : Limits) (ends : List String) (record : Component) (c : Cursor) :
    Except ParseError String × Component × Cursor :=
  match _h : c.pull with
  | (none, d) => (.error (.unexpectedEndOfInput d.position), record, d)
  | (some token, d) =>
    if token ∈ ends then (.ok token, record, d)
    else
      match record.kind.rule? token with
      | none => collect limits ends record (noteSkipped record.name token d)
      | some rule =>
        match _hd : rule.literal.read limits d with
        | (.error e, e') => (.error e, record, e')
        | (.ok value, e') => collect limits ends (record.setAttribute rule.key value) e'
termination_by c.remaining
decreasing_by
  · rw [remaining_noteSkipped]
    exact Cursor.remaining_pull_lt _h
  · have hread := Literal.remaining_read_le limits rule.literal d
    rw [_hd] at hread
    exact Nat.lt_of_le_of_lt hread (Cursor.remaining_pull_lt _h)

/-- **Reads the body of a declaration** up to one of the tokens that end it, and finishes the
record. The result is the token met; the record goes with it, finished or as a failure left it. -/
def readAttributes (limits : Limits) (ends : List String) (record : Component) (c : Cursor) :
    Except ParseError String × Component × Cursor :=
  match collect limits ends record c with
  | (.error e, collected, d) => (.error e, collected, d)
  | (.ok token, collected, d) =>
    match collected.finish limits.arithmetic with
    | (.error e, left) => (.error e, left, d)
    | (.ok (), finished) => (.ok token, finished, d)

theorem remaining_collect_le (limits : Limits) (ends : List String) (record : Component)
    (c : Cursor) : (collect limits ends record c).2.2.remaining ≤ c.remaining := by
  fun_induction collect limits ends record c with
  | case1 record c d h => exact Cursor.remaining_le_of_pull h
  | case2 record c token d h hmem => exact Cursor.remaining_le_of_pull h
  | case3 record c token d h hmem hrule ih =>
    rw [remaining_noteSkipped] at ih
    exact Nat.le_trans ih (Cursor.remaining_le_of_pull h)
  | case4 record c token d h hmem rule hrule e e' hread =>
    have hle := Literal.remaining_read_le limits rule.literal d
    rw [hread] at hle
    exact Nat.le_trans hle (Cursor.remaining_le_of_pull h)
  | case5 record c token d h hmem rule hrule value e' hread ih =>
    have hle := Literal.remaining_read_le limits rule.literal d
    rw [hread] at hle
    exact Nat.le_trans ih (Nat.le_trans hle (Cursor.remaining_le_of_pull h))

theorem remaining_readAttributes_le (limits : Limits) (ends : List String) (record : Component)
    (c : Cursor) : (readAttributes limits ends record c).2.2.remaining ≤ c.remaining := by
  have h := remaining_collect_le limits ends record c
  unfold readAttributes
  split
  · simp_all
  · split <;> simp_all

end NnetText.Component
