import NnetText.Proofs.Stages

/-!
# Two readings that go the same way

Several results say that a change to the text changes the reading in a way that can be foretold:
another layout, another text in front, lines missing at the end. They share one argument, which is
made here once for everything up to a declaration, and in `NnetText.Proofs.Tracking` for whole
runs.

A `Comparison` says when two cursors stand at corresponding places, and how the places that the
two readings report correspond. It is *lawful* (`Comparison.Lawful`) if the few steps that look at
the text itself respect it: taking a token from the line, pulling one from wherever it is, and
reading the rows of a matrix, which alone sees where a line ends. A comparison whose cursors come
to the ends of their lines together (`Comparison.Linewise`) is lawful for this reason. Everything
else follows: the readers of literals (`Comparison.Lawful.literal`), the body of a declaration
(`Comparison.Lawful.readAttributes`) and the declaration itself (`Comparison.Lawful.declaration`).

A comparison can also allow the left text to be *cut short*. Then the left reading may run out of
input where the right one goes on, and fails in one of three ways, which `ParseError.isTruncation`
lists.
-/

namespace NnetText

/-! ### Places moved -/

/-- The same place, `n` lines further down. -/
def Position.down (n : Nat) (p : Position) : Position := ⟨p.line + n, p.offset⟩

@[simp] theorem Position.down_zero : Position.down 0 = id := rfl

namespace ParseError

/-- **The same error at another place**, if it has one. -/
def mapPlace (f : Position → Position) : ParseError → ParseError
  | invalidComponentType token p => invalidComponentType token (f p)
  | invalidBoolean token p => invalidBoolean token (f p)
  | invalidInteger token p fault => invalidInteger token (f p) fault
  | invalidFloat token p fault => invalidFloat token (f p) fault
  | missingValue expected p => missingValue expected (f p)
  | expectedOpenBracket token p => expectedOpenBracket token (f p)
  | unterminatedVector p => unterminatedVector (f p)
  | unterminatedMatrix p => unterminatedMatrix (f p)
  | raggedMatrix row expected found p => raggedMatrix row expected found (f p)
  | tooManyElements construct limit p => tooManyElements construct limit (f p)
  | unexpectedEndOfInput p => unexpectedEndOfInput (f p)
  | unsupportedComponentType tag p => unsupportedComponentType tag (f p)
  | tooManyComponents limit => tooManyComponents limit
  | inconsistentAttributes component reason => inconsistentAttributes component reason

@[simp] theorem mapPlace_id (e : ParseError) : e.mapPlace id = e := by cases e <;> rfl

/-- Whether an error says that the input ended too soon. -/
def isTruncation : ParseError → Bool
  | unterminatedVector _ | unterminatedMatrix _ | unexpectedEndOfInput _ => true
  | _ => false

/-- There are three ways to say so. -/
theorem isTruncation_iff {e : ParseError} : e.isTruncation = true ↔
    ∃ place, e = unterminatedVector place ∨ e = unterminatedMatrix place ∨
      e = unexpectedEndOfInput place := by
  cases e <;> simp [isTruncation]

end ParseError

/-! ### A token that is no opening bracket -/

theorem Bracketed.openBracket_of_ne {c d : Cursor} {token : Option String}
    (h : c.nextToken = (token, d)) (hne : token ≠ some "[") :
    openBracket c = (.error (.expectedOpenBracket (ParseError.describe token) d.position), d) := by
  rw [openBracket, h]
  split
  · rename_i heq
    exact absurd (Prod.mk.inj heq).1 hne
  · rename_i heq
    obtain ⟨rfl, rfl⟩ := Prod.mk.inj heq
    rfl

theorem Bracketed.elementToken_of_ne {c d : Cursor} {token : Option String}
    (h : c.nextToken = (token, d)) (hne : token ≠ some "[") : elementToken c = (token, d) := by
  rw [elementToken, h]
  split
  · rename_i heq
    exact absurd (Prod.mk.inj heq).1 hne
  · rfl

/-- An opening bracket is passed over, and the token behind it is taken, whatever it is. -/
theorem Bracketed.elementToken_of_open {c d : Cursor} (h : c.nextToken = (some "[", d)) :
    elementToken c = d.nextToken := by
  simp only [elementToken, h]

/-! ### One round of a loop

The loops over tokens are recursive along what is left to read. These equations are one
round of each, without the evidence that the recursion ends. -/

theorem Bracketed.elements_eq {α : Type} (limit : Nat)
    (judge : String → Position → Except ParseError α) (start : Position) (found : List α)
    (c : Cursor) :
    elements limit judge start found c =
      match c.pull with
      | (none, d) => (.error (.unterminatedVector start), d)
      | (some token, d) =>
        if token = "]" then (.ok found.reverse, d)
        else if limit ≤ found.length then (.error (.tooManyElements .vector limit start), d)
        else
          match judge token d.position with
          | .error e => (.error e, d)
          | .ok x => elements limit judge start (x :: found) d := by
  rw [elements]
  split
  · rename_i d h
    simp only [h]
  · rename_i token d h
    cases hx : judge token d.position <;> simp only [h, hx]

theorem Bracketed.rows_eq (limit : Nat) (start : Position) (found : RowsFound) (c : Cursor) :
    rows limit start found c =
      match elementToken c with
      | (none, d) =>
        match d.advance with
        | (true, e) => rows limit start found.endRow e
        | (false, e) => (.error (.unterminatedMatrix start), e)
      | (some token, d) =>
        if token = "]" then (finish found d.position, d)
        else if limit ≤ found.count then (.error (.tooManyElements .matrix limit start), d)
        else
          match Scalar.float .single token d.position with
          | .error e => (.error e, d)
          | .ok x =>
            rows limit start
              (if d.skipBlanks.1 then (found.push x).endRow else found.push x)
              d.skipBlanks.2 := by
  rw [rows]
  split
  · rename_i d h
    simp only [h]
    split <;> rename_i hd <;> simp only [hd]
  · rename_i token d h
    simp only [h]
    split
    · rfl
    · split
      · rfl
      · cases Scalar.float .single token d.position with
        | error e => rfl
        | ok x =>
          dsimp only
          split <;> rename_i hd <;> rw [hd] <;> rfl

theorem Component.collect_eq (limits : Limits) (ends : List String) (record : Component)
    (c : Cursor) :
    collect limits ends record c =
      match c.pull with
      | (none, d) => (.error (.unexpectedEndOfInput d.position), record, d)
      | (some token, d) =>
        if token ∈ ends then (.ok token, record, d)
        else
          match record.kind.rule? token with
          | none => collect limits ends record (noteSkipped record.name token d)
          | some rule =>
            match rule.literal.read limits d with
            | (.error e, e') => (.error e, record, e')
            | (.ok value, e') => collect limits ends (record.setAttribute rule.key value) e' := by
  rw [collect]
  split
  · rename_i d h
    simp only [h]
  · rename_i token d h
    simp only [h]
    split
    · rfl
    · cases record.kind.rule? token with
      | none => rfl
      | some rule =>
        dsimp only
        split <;> rename_i hread <;> simp only [hread]

/-- What has been pulled last decides how a body goes on. -/
theorem Component.collect_congr {limits : Limits} {ends : List String} {record : Component}
    {c d : Cursor} (h : c.pull = d.pull) :
    collect limits ends record c = collect limits ends record d := by
  rw [collect_eq, collect_eq limits ends record d, h]

/-! ### Comparisons -/

/-- **A way to compare two readings.** -/
structure Comparison where
  /-- The cursors stand at corresponding places. -/
  rel : Cursor → Cursor → Prop
  /-- What is known of the cursors once both readings are over. -/
  ended : Cursor → Cursor → Prop
  /-- What a place of the left text is compared as. -/
  left : Position → Position
  /-- What a place of the right text is compared as. -/
  right : Position → Position
  /-- The left text may be cut short. -/
  cut : Prop

namespace Comparison

/-- **Two pulls go the same way**: both have the same token or both have none, unless the
left text is cut short. -/
inductive Pulls (K : Comparison) : Option String × Cursor → Option String × Cursor → Prop
  | token {token : String} {c d : Cursor} (h : K.rel c d) : Pulls K (some token, c) (some token, d)
  | none {c d : Cursor} (h : K.ended c d) : Pulls K (none, c) (none, d)
  | cut {c : Cursor} {r : Option String × Cursor} (h : K.cut) : Pulls K (none, c) r

/-- **Two results go the same way**: both are good, and related, or both are the same
error, unless the left text is cut short. -/
inductive Follows (K : Comparison) {α β : Type} (same : α → β → Prop) :
    Reading α → Reading β → Prop
  | ok {a : α} {b : β} {c d : Cursor} (hab : same a b) (h : K.rel c d) :
      Follows K same (.ok a, c) (.ok b, d)
  | error {e e' : ParseError} {c d : Cursor} (he : e.mapPlace K.left = e'.mapPlace K.right)
      (h : K.ended c d) : Follows K same (.error e, c) (.error e', d)
  | cut {e : ParseError} {c : Cursor} {r : Reading β} (h : K.cut)
      (he : e.isTruncation = true) : Follows K same (.error e, c) r

/-- **Two bodies go the same way.** As for results, and the records are the same but for
the number, which is `n` on the right. -/
inductive Fills (K : Comparison) (n : Nat) : Except ParseError String × Component × Cursor →
    Except ParseError String × Component × Cursor → Prop
  | ok {token : String} {record : Component} {c d : Cursor} (h : K.rel c d) :
      Fills K n (.ok token, record, c) (.ok token, record.withId n, d)
  | error {e e' : ParseError} {record : Component} {c d : Cursor}
      (he : e.mapPlace K.left = e'.mapPlace K.right) (h : K.ended c d) :
      Fills K n (.error e, record, c) (.error e', record.withId n, d)
  | cut {e : ParseError} {record : Component} {c : Cursor}
      {r : Except ParseError String × Component × Cursor} (h : K.cut)
      (he : e.isTruncation = true) : Fills K n (.error e, record, c) r

/-- **The single steps respect the comparison.** -/
structure Stepwise (K : Comparison) : Prop where
  ended_of_rel {c d : Cursor} : K.rel c d → K.ended c d
  note {c d : Cursor} (m n : Notice) : K.rel c d → K.rel (c.note m) (d.note n)
  place {c d : Cursor} : K.ended c d → K.left c.position = K.right d.position
  nextToken {c d c' : Cursor} {token : Option String} : K.rel c d →
    c.nextToken = (token, c') → ∃ d', d.nextToken = (token, d') ∧ K.rel c' d'
  pull {c d : Cursor} : K.rel c d → K.Pulls c.pull d.pull

/-- **All steps that look at the text respect the comparison**, those through the rows of a
matrix among them. -/
structure Lawful (K : Comparison) : Prop extends K.Stepwise where
  rows {c d : Cursor} {start start' : Position} (limit : Nat) :
    K.rel c d → K.left start = K.right start' →
      K.Follows Eq (Bracketed.rows limit start .none c) (Bracketed.rows limit start' .none d)

/-- **Lines correspond to lines**: the cursors come to the ends of their lines together, and pass
over the same line feeds. -/
structure Linewise (K : Comparison) : Prop where
  ended_of_rel {c d : Cursor} : K.rel c d → K.ended c d
  note {c d : Cursor} (m n : Notice) : K.rel c d → K.rel (c.note m) (d.note n)
  place {c d : Cursor} : K.ended c d → K.left c.position = K.right d.position
  nextToken {c d c' : Cursor} {token : Option String} : K.rel c d →
    c.nextToken = (token, c') → ∃ d', d.nextToken = (token, d') ∧ K.rel c' d'
  skipBlanks {c d c' : Cursor} {feed : Bool} : K.rel c d →
    c.skipBlanks = (feed, c') → ∃ d', d.skipBlanks = (feed, d') ∧ K.rel c' d'
  advance {c d c' : Cursor} : K.rel c d →
    c.advance = (true, c') → ∃ d', d.advance = (true, d') ∧ K.rel c' d'
  advance_false {c d c' : Cursor} : K.rel c d → c.advance = (false, c') →
    (∃ d', d.advance = (false, d') ∧ K.ended c' d') ∨ K.cut

/-- What is said of a token does not depend on its place. -/
def Judges (K : Comparison) {α : Type} (judge : String → Position → Except ParseError α) : Prop :=
  ∀ token p q, K.left p = K.right q →
    (judge token p).mapError (ParseError.mapPlace K.left) =
      (judge token q).mapError (ParseError.mapPlace K.right)

section Literals

variable {K : Comparison} {c d : Cursor}

theorem Judges.ok {α : Type} {judge : String → Position → Except ParseError α}
    (hjudge : K.Judges judge) {token : String} {p q : Position} {x : α}
    (hx : judge token p = .ok x) (h : K.left p = K.right q) : judge token q = .ok x := by
  have heq := hjudge token p q h
  rw [hx] at heq
  cases hq : judge token q with
  | error e =>
    rw [hq] at heq
    cases heq
  | ok y =>
    rw [hq] at heq
    exact heq.symm

theorem Judges.error {α : Type} {judge : String → Position → Except ParseError α}
    (hjudge : K.Judges judge) {token : String} {p q : Position} {e : ParseError}
    (he : judge token p = .error e) (h : K.left p = K.right q) :
    ∃ e', judge token q = .error e' ∧ e.mapPlace K.left = e'.mapPlace K.right := by
  have heq := hjudge token p q h
  rw [he] at heq
  cases hq : judge token q with
  | error e' =>
    rw [hq] at heq
    exact ⟨e', rfl, Except.error.inj heq⟩
  | ok y =>
    rw [hq] at heq
    cases heq

/-- Verdicts that differ in their place alone make results that go the same way. -/
theorem follows_of_mapError {α : Type} {r r' : Except ParseError α}
    (h : r.mapError (ParseError.mapPlace K.left) = r'.mapError (ParseError.mapPlace K.right))
    (hrel : K.rel c d) (hended : K.ended c d) : K.Follows Eq (r, c) (r', d) := by
  cases r with
  | error e =>
    cases r' with
    | error e' => exact .error (Except.error.inj h) hended
    | ok y => cases h
  | ok x =>
    cases r' with
    | error e' => cases h
    | ok y => exact .ok (Except.ok.inj h) hrel

theorem judges_bool : K.Judges Scalar.bool := by
  intro token p q h
  unfold Scalar.bool
  split
  · rfl
  · split
    · rfl
    · exact congrArg (fun p => Except.error (ParseError.invalidBoolean token p)) h

theorem judges_integer : K.Judges Scalar.integer := by
  intro token p q h
  unfold Scalar.integer
  split
  · rfl
  · rename_i fault _
    exact congrArg (fun p => Except.error (ParseError.invalidInteger token p fault)) h

theorem judges_float (f : Format) : K.Judges (Scalar.float f) := by
  intro token p q h
  unfold Scalar.float
  split
  · rfl
  · rename_i fault _
    exact congrArg (fun p => Except.error (ParseError.invalidFloat token p fault)) h

/-- The rows of a matrix fit together or not, wherever it ends. -/
theorem finish_mapError (r : Bracketed.RowsFound) {p q : Position} (h : K.left p = K.right q) :
    (Bracketed.finish r p).mapError (ParseError.mapPlace K.left) =
      (Bracketed.finish r q).mapError (ParseError.mapPlace K.right) := by
  unfold Bracketed.finish
  cases Matrix.ofRows r.toList with
  | ok m => rfl
  | error ragged =>
    exact congrArg (fun p => Except.error
      (ParseError.raggedMatrix ragged.row ragged.expected ragged.found p)) h

/-- Results that go the same way still do so when they are wrapped up. -/
theorem Follows.wrap {α : Type} {make : α → Value} {r r' : Reading α} (h : K.Follows Eq r r') :
    K.Follows Eq (Literal.wrap make r) (Literal.wrap make r') := by
  cases h with
  | ok hab hrel => exact .ok (congrArg make hab) hrel
  | error he hended => exact .error he hended
  | cut hcut he => exact .cut hcut he

namespace Stepwise

variable (hK : K.Stepwise)
include hK

theorem position (h : K.rel c d) : K.left c.position = K.right d.position :=
  hK.place (hK.ended_of_rel h)

/-- The tokens of a matrix taken from two lines are the same. -/
theorem elementToken {c' : Cursor} {token : Option String} (h : K.rel c d)
    (hc : Bracketed.elementToken c = (token, c')) :
    ∃ d', Bracketed.elementToken d = (token, d') ∧ K.rel c' d' := by
  unfold Bracketed.elementToken at hc ⊢
  split at hc
  · rename_i e he
    obtain ⟨e', he', hrel⟩ := hK.nextToken h he
    rw [he']
    exact hK.nextToken hrel hc
  · rename_i hne
    obtain ⟨d', hd, hrel⟩ := hK.nextToken h hc
    refine ⟨d', ?_, hrel⟩
    -- the token is the same, so it is no bracket on the right either
    rw [hd]
    split
    · rename_i heq
      obtain ⟨rfl, -⟩ := Prod.mk.inj heq
      exact absurd hc (hne c')
    · rfl

end Stepwise

namespace Linewise

variable (hK : K.Linewise)
include hK

/-- **Tokens are pulled alike**, as long as the left text has any. -/
theorem pull (h : K.rel c d) : K.Pulls c.pull d.pull := by
  fun_induction Cursor.pull c generalizing d with
  | case1 c token c' hc =>
    obtain ⟨d', hd, hrel⟩ := hK.nextToken h hc
    rw [Cursor.pull_of_nextToken hd]
    exact .token hrel
  | case2 c c' hc c'' hc' ih =>
    obtain ⟨d', hd, hrel⟩ := hK.nextToken h hc
    obtain ⟨d'', hd', hrel'⟩ := hK.advance hrel hc'
    rw [Cursor.pull_of_advance hd hd']
    exact ih hrel'
  | case3 c c' hc c'' hc' =>
    obtain ⟨d', hd, hrel⟩ := hK.nextToken h hc
    rcases hK.advance_false hrel hc' with ⟨d'', hd', hended⟩ | hcut
    · rw [Cursor.pull_of_advance_false hd hd']
      exact .none hended
    · exact .cut hcut

/-- Cursors that correspond behind their next tokens pull alike. -/
theorem pulls_of_nextToken {c' d' : Cursor} {token : Option String}
    (hc : c.nextToken = (token, c')) (hd : d.nextToken = (token, d')) (h : K.rel c' d') :
    K.Pulls c.pull d.pull := by
  rcases token with _ | token
  · rcases hc' : c'.advance with ⟨_ | _, c''⟩
    · rcases hK.advance_false h hc' with ⟨d'', hd', hended⟩ | hcut
      · rw [Cursor.pull_of_advance_false hc hc', Cursor.pull_of_advance_false hd hd']
        exact .none hended
      · rw [Cursor.pull_of_advance_false hc hc']
        exact .cut hcut
    · obtain ⟨d'', hd', hrel⟩ := hK.advance h hc'
      rw [Cursor.pull_of_advance hc hc', Cursor.pull_of_advance hd hd']
      exact hK.pull hrel
  · rw [Cursor.pull_of_nextToken hc, Cursor.pull_of_nextToken hd]
    exact .token h

theorem stepwise : K.Stepwise where
  ended_of_rel := hK.ended_of_rel
  note := hK.note
  place := hK.place
  nextToken := hK.nextToken
  pull := hK.pull

/-- Row by row, the two matrices are read in step. -/
theorem rows {limit : Nat} {start start' : Position} (hstart : K.left start = K.right start')
    {found : Bracketed.RowsFound} (h : K.rel c d) :
    K.Follows Eq (Bracketed.rows limit start found c) (Bracketed.rows limit start' found d) := by
  have hS := hK.stepwise
  -- the lines are the same, so that rows end at the same places
  fun_induction Bracketed.rows limit start found c generalizing d with
  | case1 found c c' hc c'' hc' ih =>
    obtain ⟨d', hd, hrel⟩ := hS.elementToken h hc
    obtain ⟨d'', hd', hrel'⟩ := hK.advance hrel hc'
    simp only [Bracketed.rows_eq _ _ _ d, hd, hd']
    exact ih hrel'
  | case2 found c c' hc c'' hc' =>
    obtain ⟨d', hd, hrel⟩ := hS.elementToken h hc
    rcases hK.advance_false hrel hc' with ⟨d'', hd', hended⟩ | hcut
    · simp only [Bracketed.rows_eq _ _ _ d, hd, hd']
      exact .error (congrArg ParseError.unterminatedMatrix hstart) hended
    · exact .cut hcut rfl
  | case3 found c c' hc =>
    obtain ⟨d', hd, hrel⟩ := hS.elementToken h hc
    simp only [Bracketed.rows_eq _ _ _ d, hd, if_pos]
    exact follows_of_mapError (finish_mapError found (hS.position hrel)) hrel
      (hK.ended_of_rel hrel)
  | case4 found c token c' hc hne hlimit =>
    obtain ⟨d', hd, hrel⟩ := hS.elementToken h hc
    simp only [Bracketed.rows_eq _ _ _ d, hd, if_neg hne, if_pos hlimit]
    exact .error (congrArg (ParseError.tooManyElements .matrix limit) hstart)
      (hK.ended_of_rel hrel)
  | case5 found c token c' hc hne hlimit e he =>
    obtain ⟨d', hd, hrel⟩ := hS.elementToken h hc
    obtain ⟨e', he', heq⟩ := (judges_float .single).error he (hS.position hrel)
    simp only [Bracketed.rows_eq _ _ _ d, hd, if_neg hne, if_neg hlimit, he']
    exact .error heq (hK.ended_of_rel hrel)
  | case6 found c token c' hc hne hlimit x hx c'' hc' ih =>
    obtain ⟨d', hd, hrel⟩ := hS.elementToken h hc
    have hx' := (judges_float .single).ok hx (hS.position hrel)
    obtain ⟨d'', hd', hrel'⟩ := hK.skipBlanks hrel hc'
    simp only [Bracketed.rows_eq _ _ _ d, hd, if_neg hne, if_neg hlimit, hx', hd', if_true]
    exact ih hrel'
  | case7 found c token c' hc hne hlimit x hx c'' hc' ih =>
    obtain ⟨d', hd, hrel⟩ := hS.elementToken h hc
    have hx' := (judges_float .single).ok hx (hS.position hrel)
    obtain ⟨d'', hd', hrel'⟩ := hK.skipBlanks hrel hc'
    simp only [Bracketed.rows_eq _ _ _ d, hd, if_neg hne, if_neg hlimit, hx', hd']
    exact ih hrel'

/-- **A comparison line by line is lawful.** -/
theorem lawful : K.Lawful where
  toStepwise := hK.stepwise
  rows := fun _ h hstart => hK.rows hstart h

end Linewise

/-- A token on the left is a token on the right. -/
theorem Pulls.exists_token {c' : Cursor} {token : String} (h : K.Pulls c.pull d.pull)
    (hc : c.pull = (some token, c')) : ∃ d', d.pull = (some token, d') ∧ K.rel c' d' := by
  rw [hc] at h
  generalize d.pull = r at h ⊢
  cases h with
  | token hrel => exact ⟨_, rfl, hrel⟩

/-- Without a token on the left there is none on the right, or the left text is cut short. -/
theorem Pulls.exists_none {c' : Cursor} (h : K.Pulls c.pull d.pull)
    (hc : c.pull = (Option.none, c')) :
    (∃ d', d.pull = (Option.none, d') ∧ K.ended c' d') ∨ K.cut := by
  rw [hc] at h
  generalize d.pull = r at h ⊢
  cases h with
  | none hended => exact Or.inl ⟨_, rfl, hended⟩
  | cut hcut => exact Or.inr hcut

namespace Lawful

variable (hK : K.Lawful)
include hK

theorem scalar {α : Type} (expected : Expected)
    {judge : String → Position → Except ParseError α} (hjudge : K.Judges judge)
    (h : K.rel c d) :
    K.Follows Eq (Scalar.read expected judge c) (Scalar.read expected judge d) := by
  rcases hc : c.nextToken with ⟨token, c'⟩
  obtain ⟨d', hd, hrel⟩ := hK.nextToken h hc
  have hplace := hK.position hrel
  have hended := hK.ended_of_rel hrel
  rw [Scalar.read, Scalar.read, hc, hd]
  cases token with
  | none => exact .error (congrArg (ParseError.missingValue expected) hplace) hended
  | some token => exact follows_of_mapError (hjudge token _ _ hplace) hrel hended

/-- The places where brackets open correspond. -/
theorem openBracket (h : K.rel c d) :
    K.Follows (fun start start' => K.left start = K.right start') (Bracketed.openBracket c)
      (Bracketed.openBracket d) := by
  rcases hc : c.nextToken with ⟨token, c'⟩
  obtain ⟨d', hd, hrel⟩ := hK.nextToken h hc
  unfold Bracketed.openBracket
  rw [hc, hd]
  by_cases htoken : token = some "["
  · subst htoken
    exact .ok (hK.position h) hrel
  · split
    · rename_i heq
      exact absurd (Prod.mk.inj heq).1 htoken
    · rename_i heq
      obtain ⟨rfl, rfl⟩ := Prod.mk.inj heq
      exact .error (congrArg (ParseError.expectedOpenBracket _) (hK.position hrel))
        (hK.ended_of_rel hrel)

theorem exists_pull {c' : Cursor} {token : String} (h : K.rel c d)
    (hc : c.pull = (some token, c')) : ∃ d', d.pull = (some token, d') ∧ K.rel c' d' :=
  (hK.pull h).exists_token hc

theorem exists_pull_none {c' : Cursor} (h : K.rel c d) (hc : c.pull = (none, c')) :
    (∃ d', d.pull = (none, d') ∧ K.ended c' d') ∨ K.cut :=
  (hK.pull h).exists_none hc

theorem elements {α : Type} {limit : Nat} {judge : String → Position → Except ParseError α}
    (hjudge : K.Judges judge) {start start' : Position} (hstart : K.left start = K.right start')
    (found : List α) (h : K.rel c d) :
    K.Follows Eq (Bracketed.elements limit judge start found c)
      (Bracketed.elements limit judge start' found d) := by
  -- along the loop on the left: each of its rounds is the same round on the right
  fun_induction Bracketed.elements limit judge start found c generalizing d with
  | case1 found c c' hc =>
    rcases hK.exists_pull_none h hc with ⟨d', hd, hended⟩ | hcut
    · rw [Bracketed.elements_eq, hd]
      exact .error (congrArg ParseError.unterminatedVector hstart) hended
    · exact .cut hcut rfl
  | case2 found c c' hc =>
    obtain ⟨d', hd, hrel⟩ := hK.exists_pull h hc
    rw [Bracketed.elements_eq, hd]
    exact .ok rfl hrel
  | case3 found c token c' hc hne hlimit =>
    obtain ⟨d', hd, hrel⟩ := hK.exists_pull h hc
    simp only [Bracketed.elements_eq _ _ _ _ d, hd, if_neg hne, if_pos hlimit]
    exact .error (congrArg (ParseError.tooManyElements .vector limit) hstart)
      (hK.ended_of_rel hrel)
  | case4 found c token c' hc hne hlimit e he =>
    obtain ⟨d', hd, hrel⟩ := hK.exists_pull h hc
    obtain ⟨e', he', heq⟩ := hjudge.error he (hK.position hrel)
    simp only [Bracketed.elements_eq _ _ _ _ d, hd, if_neg hne, if_neg hlimit, he']
    exact .error heq (hK.ended_of_rel hrel)
  | case5 found c token c' hc hne hlimit x hx ih =>
    obtain ⟨d', hd, hrel⟩ := hK.exists_pull h hc
    have hx' := hjudge.ok hx (hK.position hrel)
    simp only [Bracketed.elements_eq _ _ _ _ d, hd, if_neg hne, if_neg hlimit, hx']
    exact ih hrel

theorem vector {α : Type} (limits : Limits) {judge : String → Position → Except ParseError α}
    (hjudge : K.Judges judge) (h : K.rel c d) :
    K.Follows Eq (Bracketed.vector limits judge c) (Bracketed.vector limits judge d) := by
  have hopen := hK.openBracket h
  unfold Bracketed.vector
  generalize Bracketed.openBracket c = r at hopen ⊢
  generalize Bracketed.openBracket d = r' at hopen ⊢
  cases hopen with
  | ok hstart hrel => exact hK.elements hjudge hstart [] hrel
  | error he hended => exact .error he hended
  | cut hcut he => exact .cut hcut he

theorem matrix (limits : Limits) (h : K.rel c d) :
    K.Follows Eq (Bracketed.matrix limits c) (Bracketed.matrix limits d) := by
  have hopen := hK.openBracket h
  unfold Bracketed.matrix
  generalize Bracketed.openBracket c = r at hopen ⊢
  generalize Bracketed.openBracket d = r' at hopen ⊢
  cases hopen with
  | ok hstart hrel => exact hK.rows limits.tensorElements hrel hstart
  | error he hended => exact .error he hended
  | cut hcut he => exact .cut hcut he

/-- **Literals are read alike.** -/
theorem literal (limits : Limits) (l : Literal) (h : K.rel c d) :
    K.Follows Eq (l.read limits c) (l.read limits d) := by
  cases l with
  | bool => exact (hK.scalar _ judges_bool h).wrap
  | int => exact (hK.scalar _ judges_integer h).wrap
  | float => exact (hK.scalar _ (judges_float _) h).wrap
  | ints => exact (hK.vector limits judges_integer h).wrap
  | floats => exact (hK.vector limits (judges_float _) h).wrap
  | matrix => exact (hK.matrix limits h).wrap

end Lawful

end Literals

/-! ### Declarations -/

section Declarations

variable {K : Comparison} (hK : K.Lawful) {c d : Cursor}
include hK

namespace Lawful

/-- A notice on either side changes nothing. -/
theorem noteSkipped (component component' token : String) (h : K.rel c d) :
    K.rel (Component.noteSkipped component token c)
      (Component.noteSkipped component' token d) := by
  unfold Component.noteSkipped
  split
  · exact hK.note _ _ h
  · exact h

/-- Of the cursors, the body of a declaration sees what they pull. -/
theorem collect_of_pulls (limits : Limits) (ends : List String) (n : Nat) (record : Component)
    (h : K.Pulls c.pull d.pull) :
    K.Fills n (record.collect limits ends c) ((record.withId n).collect limits ends d) := by
  -- as for the elements of a vector; the record on the right keeps its own number
  fun_induction Component.collect limits ends record c generalizing d with
  | case1 record c c' hc =>
    rcases h.exists_none hc with ⟨d', hd, hended⟩ | hcut
    · simp only [Component.collect_eq _ _ _ d, hd]
      exact .error (congrArg ParseError.unexpectedEndOfInput (hK.place hended)) hended
    · exact .cut hcut rfl
  | case2 record c token c' hc hmem =>
    obtain ⟨d', hd, hrel⟩ := h.exists_token hc
    simp only [Component.collect_eq _ _ _ d, hd, if_pos hmem]
    exact .ok hrel
  | case3 record c token c' hc hmem hrule ih =>
    obtain ⟨d', hd, hrel⟩ := h.exists_token hc
    simp only [Component.collect_eq _ _ _ d, hd, if_neg hmem, Component.kind_withId, hrule]
    exact ih (hK.pull (hK.noteSkipped _ _ token hrel))
  | case4 record c token c' hc hmem rule hrule e c'' hread =>
    obtain ⟨d', hd, hrel⟩ := h.exists_token hc
    have hliteral := hK.literal limits rule.literal hrel
    simp only [Component.collect_eq _ _ _ d, hd, if_neg hmem, Component.kind_withId, hrule]
    rw [hread] at hliteral
    generalize rule.literal.read limits d' = r at hliteral ⊢
    cases hliteral with
    | error he hended => exact .error he hended
    | cut hcut he => exact .cut hcut he
  | case5 record c token c' hc hmem rule hrule value c'' hread ih =>
    obtain ⟨d', hd, hrel⟩ := h.exists_token hc
    have hliteral := hK.literal limits rule.literal hrel
    simp only [Component.collect_eq _ _ _ d, hd, if_neg hmem, Component.kind_withId, hrule]
    rw [hread] at hliteral
    generalize rule.literal.read limits d' = r at hliteral ⊢
    cases hliteral with
    | ok heq hrel' =>
      subst heq
      exact ih (hK.pull hrel')

/-- Bodies that are collected alike are finished alike. -/
theorem readAttributes_of_collect {limits : Limits} {ends : List String} {n : Nat}
    {record : Component}
    (h : K.Fills n (record.collect limits ends c) ((record.withId n).collect limits ends d)) :
    K.Fills n (record.readAttributes limits ends c)
      ((record.withId n).readAttributes limits ends d) := by
  unfold Component.readAttributes
  generalize record.collect limits ends c = r at h ⊢
  generalize (record.withId n).collect limits ends d = r' at h ⊢
  cases h with
  | @ok token collected _ _ hrel =>
    dsimp only
    rw [Component.finish_withId]
    rcases hfinish : collected.finish limits.arithmetic with ⟨e | ⟨⟩, finished⟩
    · -- such an error has no place, and so it is the same on both sides
      obtain ⟨reason, rfl⟩ := Component.exists_reason_of_finish hfinish
      exact .error rfl (hK.ended_of_rel hrel)
    · exact .ok hrel
  | error he hended => exact .error he hended
  | cut hcut he => exact .cut hcut he

/-- **Bodies are read alike**, whatever the number of the record. -/
theorem readAttributes (limits : Limits) (ends : List String) (n : Nat) (record : Component)
    (h : K.rel c d) :
    K.Fills n (record.readAttributes limits ends c)
      ((record.withId n).readAttributes limits ends d) :=
  hK.readAttributes_of_collect (hK.collect_of_pulls limits ends n record (hK.pull h))

theorem typeTag (h : K.rel c d) :
    K.Follows Eq (Section.typeTag c) (Section.typeTag d) := by
  rcases hc : c.nextToken with ⟨token, c'⟩
  obtain ⟨d', hd, hrel⟩ := hK.nextToken h hc
  have hplace := hK.position hrel
  have hended := hK.ended_of_rel hrel
  rw [Section.typeTag, Section.typeTag, hc, hd]
  cases token with
  | none => exact .error (congrArg (ParseError.invalidComponentType _) hplace) hended
  | some token =>
    dsimp only
    split
    · exact .ok rfl hrel
    · exact .error (congrArg (ParseError.invalidComponentType token) hplace) hended

/-- **Declarations are read alike**, whatever their number. -/
theorem declaration (limits : Limits) (id n : Nat) (h : K.rel c d) :
    K.Follows (fun x y => y = (x.1.withId n, x.2)) (Section.declaration limits id c)
      (Section.declaration limits n d) := by
  rcases hc : c.nextToken with ⟨token, c'⟩
  obtain ⟨d', hd, hrel⟩ := hK.nextToken h hc
  have hplace := hK.position hrel
  rw [Section.declaration, Section.declaration, hc, hd]
  cases token with
  | none =>
    exact .error (congrArg (ParseError.missingValue _) hplace) (hK.ended_of_rel hrel)
  | some name =>
    have htag := hK.typeTag hrel
    dsimp only
    generalize Section.typeTag c' = r at htag ⊢
    generalize Section.typeTag d' = r' at htag ⊢
    cases htag with
    | error he hended => exact .error he hended
    | cut hcut he => exact .cut hcut he
    | @ok tag _ c'' d'' heq hrel' =>
      subst heq
      dsimp only
      unfold Component.declare
      cases Kind.ofType? (Tag.name tag) with
      | none =>
        exact .error (congrArg (ParseError.unsupportedComponentType tag) hplace)
          (hK.ended_of_rel hrel')
      | some kind =>
        have hbody := hK.readAttributes limits [Tag.closing tag, Tag.opener] n
          { id, name, kind, typeTag := Tag.name tag, inputs := [] } hrel'
        dsimp only [Component.withId] at hbody ⊢
        generalize Component.readAttributes limits _ _ c'' = r at hbody ⊢
        generalize Component.readAttributes limits _ _ d'' = r' at hbody ⊢
        cases hbody with
        | ok hrel => exact .ok rfl (hK.note _ _ hrel)
        | error he hended => exact .error he hended
        | cut hcut he => exact .cut hcut he

end Lawful

end Declarations

end Comparison

end NnetText
