import NnetText.Proofs.Faults
import NnetText.Proofs.Places
import NnetText.Proofs.Stages

/-!
# Where errors point

The place of an error is a cursor's position, but not all errors take it at the same moment: some
before a token is looked at, some behind it, and some remember a place many lines back, where a
bracket was opened. `ParseError.Points` says for each error what stands at its place, in words of
the text: the token it blames ends there, or is the first from there on, or a line or the text
ends there. `Section.points_of_read` is that every error of a text points in this way, and so at
a place that the text has.

The argument goes along with reading. A cursor in front of a value stands behind a tag, one in front
of a type stands behind a name (`Cursor.Behind`), and everywhere else it is enough that the cursor
stands at a place of the text (`Cursor.On`).
-/

namespace NnetText

namespace ParseError

/-- The place remembered by an error about a bracketed literal as a whole. -/
def opening? : ParseError → Option Position
  | unterminatedVector p | unterminatedMatrix p | tooManyElements _ _ p => some p
  | _ => none

/-- **A literal was opened here**, and reading it fails with this error. -/
def Opens (limits : Limits) (text : List Char) (e : ParseError) (p : Position) : Prop :=
  p.Precedes text "[" ∧
    ∃ (l : Literal) (c : Cursor), c.On text ∧ c.position = p ∧ (l.read limits c).1 = .error e

/-- **A token as an error shows it** ends here, or the line does if it had no token. -/
def Shows (text : List Char) (token : String) (p : Position) : Prop :=
  if token = describe none then p.EndsLine text else p.EndsToken text token

/-- **What stands at the place of an error.** -/
def Points (limits : Limits) (text : List Char) (e : ParseError) : Prop :=
  match e with
  | invalidComponentType token p | expectedOpenBracket token p => Shows text token p
  | invalidBoolean token p | invalidInteger token p _ | invalidFloat token p _ =>
    p.EndsToken text token
  | missingValue _ p => p.EndsLine text
  | unterminatedVector p | unterminatedMatrix p | tooManyElements _ _ p => e.Opens limits text p
  | raggedMatrix _ _ _ p => p.EndsToken text "]"
  | unexpectedEndOfInput p => p.EndsText text
  | unsupportedComponentType tag p => Tag.isComponentType tag = true ∧ p.Precedes text tag
  | tooManyComponents _ | inconsistentAttributes _ _ => True

variable {limits : Limits} {text : List Char} {e : ParseError} {p : Position}

theorem points_of_opens (hopening : e.opening? = some p) (h : e.Opens limits text p) :
    e.Points limits text := by
  cases e <;> cases hopening <;> exact h

theorem shows_none (h : p.EndsLine text) : Shows text (describe none) p := by
  rw [Shows, if_pos rfl]
  exact h

/-- A token is told apart from the end of a line, which is shown with blanks in it. -/
theorem shows_some {token : String} (h : p.EndsToken text token) :
    Shows text (describe (some token)) p := by
  have hne : token ≠ describe none := by
    rintro rfl
    obtain ⟨before, after, -, hdelimited⟩ := h
    have hblank := hdelimited.solid ' ' (by decide)
    exact absurd hblank (by decide)
  rw [Shows, describe, Option.getD_some, if_neg hne]
  exact h

/-- **An error that points somewhere points at a place of the text.** -/
theorem Points.isPlace (h : e.Points limits text) (hp : e.position? = some p) :
    p.IsPlace text := by
  have hline : ∀ q : Position, q.EndsLine text → q.IsPlace text :=
    fun _ ⟨_, _, _, hsplits, _⟩ => ⟨_, _, hsplits⟩
  have htoken : ∀ (q : Position) token, q.EndsToken text token → q.IsPlace text :=
    fun _ _ ⟨_, _, hsplits, _⟩ => ⟨_, _, hsplits⟩
  have hprecedes : ∀ (q : Position) token, q.Precedes text token → q.IsPlace text :=
    fun _ _ ⟨_, _, _, hsplits, _⟩ => ⟨_, _, hsplits⟩
  have hshows : ∀ token (q : Position), Shows text token q → q.IsPlace text := by
    intro token q hq
    unfold Shows at hq
    split at hq
    · exact hline q hq
    · exact htoken q token hq
  cases e <;> cases hp
  case invalidComponentType token | expectedOpenBracket token =>
    exact hshows token _ h
  case invalidBoolean | invalidInteger | invalidFloat | raggedMatrix => exact htoken _ _ h
  case missingValue => exact hline _ h
  case unterminatedVector | unterminatedMatrix | tooManyElements => exact hprecedes _ _ h.1
  case unexpectedEndOfInput =>
    obtain ⟨-, line, hsplits⟩ := h
    exact ⟨_, _, hsplits⟩
  case unsupportedComponentType => exact hprecedes _ _ h.2

end ParseError

/-! ### Literals -/

namespace Scalar

theorem Fault.points {token : String} {place : Position} {e : ParseError}
    (h : Fault token place e) {limits : Limits} {text : List Char}
    (hplace : place.EndsToken text token) : e.Points limits text := by
  cases h <;> exact hplace

theorem points_read {α : Type} {expected : Expected}
    {judge : String → Position → Except ParseError α} (hjudge : IsJudge judge) {limits : Limits}
    {text : List Char} {tag : String} {c d : Cursor} {e : ParseError} (hc : c.Behind text tag)
    (h : read expected judge c = (.error e, d)) : e.Points limits text := by
  unfold read at h
  split at h
  · rename_i d' hd'
    cases h
    exact hc.of_nextToken_none hd'
  · rename_i token d' hd'
    exact (hjudge (Prod.mk.inj h).1).points (hc.toOn.of_nextToken hd').1.endsToken

end Scalar

namespace Bracketed

variable {limits : Limits} {text : List Char} {tag : String} {c d : Cursor} {e : ParseError}
  {start : Position}

theorem points_openBracket (hc : c.Behind text tag) (h : openBracket c = (.error e, d)) :
    e.Points limits text := by
  unfold openBracket at h
  split at h
  · cases h
  · rename_i token d' _ hd'
    cases h
    cases token with
    | none => exact ParseError.shows_none (hc.of_nextToken_none hd')
    | some token => exact ParseError.shows_some (hc.toOn.of_nextToken hd').1.endsToken

/-- An opening bracket is the first token from the place it reports. -/
theorem precedes_of_openBracket (hc : c.On text) (h : openBracket c = (.ok start, d)) :
    start = c.position ∧ c.position.Precedes text "[" := by
  unfold openBracket at h
  split at h
  · rename_i d' hd'
    cases h
    exact ⟨rfl, (hc.of_nextToken hd').2⟩
  · cases h

/-- A vector that breaks off blames an element, or the bracket that opened it. -/
theorem points_or_opening_elements {α : Type} {limit : Nat}
    {judge : String → Position → Except ParseError α} (hjudge : Scalar.IsJudge judge)
    {found : List α} (hc : c.On text) (h : elements limit judge start found c = (.error e, d)) :
    e.Points limits text ∨ e.opening? = some start := by
  fun_induction elements limit judge start found c with
  | case1 found c d' hpull =>
    cases h
    exact Or.inr rfl
  | case2 found c d' hpull => cases h
  | case3 found c token d' hpull hne hlimit =>
    cases h
    exact Or.inr rfl
  | case4 found c token d' hpull hne hlimit fault hfault =>
    cases h
    exact Or.inl ((hjudge hfault).points (hc.of_pull hpull).endsToken)
  | case5 found c token d' hpull hne hlimit x hx ih => exact ih (hc.of_pull hpull).toOn h

theorem points_or_opening_vector {α : Type} {judge : String → Position → Except ParseError α}
    (hjudge : Scalar.IsJudge judge) (hc : c.Behind text tag)
    (h : vector limits judge c = (.error e, d)) :
    e.Points limits text ∨ e.opening? = some c.position ∧ c.position.Precedes text "[" := by
  unfold vector at h
  split at h
  · rename_i hopen
    cases h
    exact Or.inl (points_openBracket hc hopen)
  · rename_i start d' hopen
    obtain ⟨rfl, hprecedes⟩ := precedes_of_openBracket hc.toOn hopen
    have hd' := ((moves_openBracket c).of_eq hopen).on hc.toOn
    exact (points_or_opening_elements hjudge hd' h).imp_right fun hopening => ⟨hopening, hprecedes⟩

/-- An element of a matrix is a token of the line, be there a bracket before it or not. -/
theorem behind_of_elementToken {token : String} (hc : c.On text)
    (h : elementToken c = (some token, d)) : d.Behind text token := by
  unfold elementToken at h
  split at h
  · rename_i d' hd'
    exact ((hc.of_nextToken hd').1.toOn.of_nextToken h).1
  · exact (hc.of_nextToken h).1

theorem points_or_opening_rows {limit : Nat} {found : RowsFound} (hc : c.On text)
    (h : rows limit start found c = (.error e, d)) :
    e.Points limits text ∨ e.opening? = some start := by
  fun_induction rows limit start found c with
  | case1 found c d' hnone e' hadvance ih =>
    have hd' := ((moves_elementToken c).of_eq hnone).on hc
    exact ih (Cursor.on_of_advance hd'.pending hadvance) h
  | case2 found c d' hnone e' hadvance =>
    cases h
    exact Or.inr rfl
  | case3 found c d' hsome =>
    have hfinish := (Prod.mk.inj h).1
    unfold finish at hfinish
    split at hfinish <;> cases hfinish
    exact Or.inl (behind_of_elementToken hc hsome).endsToken
  | case4 found c token d' hsome hne hlimit =>
    cases h
    exact Or.inr rfl
  | case5 found c token d' hsome hne hlimit fault hfault =>
    cases h
    have hplace := (behind_of_elementToken hc hsome).endsToken
    exact Or.inl ((Scalar.isJudge_float _ hfault).points hplace)
  | case6 found c token d' hsome hne hlimit x hx e' hskip ih
  | case7 found c token d' hsome hne hlimit x hx e' hskip ih =>
    have hd' := (behind_of_elementToken hc hsome).toOn
    exact ih ((d'.moves_skipBlanks.of_eq hskip).on hd') h

theorem points_or_opening_matrix (hc : c.Behind text tag) (h : matrix limits c = (.error e, d)) :
    e.Points limits text ∨ e.opening? = some c.position ∧ c.position.Precedes text "[" := by
  unfold matrix at h
  split at h
  · rename_i hopen
    cases h
    exact Or.inl (points_openBracket hc hopen)
  · rename_i start d' hopen
    obtain ⟨rfl, hprecedes⟩ := precedes_of_openBracket hc.toOn hopen
    have hd' := ((moves_openBracket c).of_eq hopen).on hc.toOn
    exact (points_or_opening_rows hd' h).imp_right fun hopening => ⟨hopening, hprecedes⟩

end Bracketed

namespace Literal

/-- **A value that cannot be read blames a token of it**, the bracket that opened it or the end of
the line. -/
theorem points_read {limits : Limits} {text : List Char} {tag : String} {l : Literal}
    {c d : Cursor} {e : ParseError} (hc : c.Behind text tag)
    (h : l.read limits c = (.error e, d)) : e.Points limits text := by
  -- an error about the literal as a whole was found by reading it from here
  have hwhole : e.Points limits text ∨
      e.opening? = some c.position ∧ c.position.Precedes text "[" → e.Points limits text := by
    rintro (hpoints | ⟨hopening, hprecedes⟩)
    · exact hpoints
    · exact ParseError.points_of_opens hopening
        ⟨hprecedes, l, c, hc.toOn, rfl, congrArg Prod.fst h⟩
  cases l with
  | bool => exact Scalar.points_read Scalar.isJudge_bool hc (eq_error_of_wrap h)
  | int => exact Scalar.points_read Scalar.isJudge_integer hc (eq_error_of_wrap h)
  | float => exact Scalar.points_read (Scalar.isJudge_float _) hc (eq_error_of_wrap h)
  | ints =>
    exact hwhole (Bracketed.points_or_opening_vector Scalar.isJudge_integer hc (eq_error_of_wrap h))
  | floats =>
    exact hwhole
      (Bracketed.points_or_opening_vector (Scalar.isJudge_float _) hc (eq_error_of_wrap h))
  | matrix => exact hwhole (Bracketed.points_or_opening_matrix hc (eq_error_of_wrap h))

end Literal

/-! ### Declarations -/

namespace Component

variable {limits : Limits} {text : List Char} {ends : List String} {record after : Component}
  {c d : Cursor} {e : ParseError} {token : String}

theorem points_collect (hc : c.On text) (h : collect limits ends record c = (.error e, after, d)) :
    e.Points limits text := by
  fun_induction collect limits ends record c with
  | case1 record c d' hpull =>
    cases h
    exact hc.of_pull_none hpull
  | case2 record c token d' hpull hmem => cases h
  | case3 record c token d' hpull hmem hrule ih =>
    exact ih ((moves_noteSkipped _ _ d').on (hc.of_pull hpull).toOn) h
  | case4 record c token d' hpull hmem rule hrule fault e' hread =>
    cases h
    exact Literal.points_read (hc.of_pull hpull) hread
  | case5 record c token d' hpull hmem rule hrule value e' hread ih =>
    exact ih (((Literal.moves_read limits rule.literal d').of_eq hread).on
      (hc.of_pull hpull).toOn) h

/-- A body that can be read ends behind the token that ends it. -/
theorem behind_of_collect (hc : c.On text)
    (h : collect limits ends record c = (.ok token, after, d)) : d.Behind text token := by
  fun_induction collect limits ends record c with
  | case1 record c d' hpull => cases h
  | case2 record c token' d' hpull hmem =>
    cases h
    exact hc.of_pull hpull
  | case3 record c token' d' hpull hmem hrule ih =>
    exact ih ((moves_noteSkipped _ _ d').on (hc.of_pull hpull).toOn) h
  | case4 record c token' d' hpull hmem rule hrule fault e' hread => cases h
  | case5 record c token' d' hpull hmem rule hrule value e' hread ih =>
    exact ih (((Literal.moves_read limits rule.literal d').of_eq hread).on
      (hc.of_pull hpull).toOn) h

theorem points_readAttributes (hc : c.On text)
    (h : readAttributes limits ends record c = (.error e, after, d)) : e.Points limits text := by
  cases BodyOutcome.of_eq h with
  | broken body => exact points_collect hc body
  | inconsistent body => trivial

theorem behind_of_readAttributes (hc : c.On text)
    (h : readAttributes limits ends record c = (.ok token, after, d)) : d.Behind text token := by
  cases BodyOutcome.of_eq h with
  | finished body => exact behind_of_collect hc body

end Component

namespace Section

variable {limits : Limits} {text : List Char} {c d : Cursor} {e : ParseError} {token : String}

theorem points_typeTag (hc : c.Behind text token) (h : typeTag c = (.error e, d)) :
    e.Points limits text := by
  cases TypeTagOutcome.of_eq h with
  | missing next => exact ParseError.shows_none (hc.of_nextToken_none next)
  | invalid next => exact ParseError.shows_some (hc.toOn.of_nextToken next).1.endsToken

theorem precedes_of_typeTag {tag : String} (hc : c.On text) (h : typeTag c = (.ok tag, d)) :
    d.On text ∧ Tag.isComponentType tag = true ∧ c.position.Precedes text tag := by
  cases TypeTagOutcome.of_eq h with
  | valid next type => exact ⟨(hc.of_nextToken next).1.toOn, type, (hc.of_nextToken next).2⟩

/-- **A declaration that cannot be read** points at its offender. -/
theorem points_declaration {id : Nat} (hc : c.Behind text token)
    (h : declaration limits id c = (.error e, d)) : e.Points limits text := by
  cases DeclarationOutcome.of_eq h with
  | unnamed next => exact hc.of_nextToken_none next
  | untyped next type => exact points_typeTag (hc.toOn.of_nextToken next).1 type
  | unsupported next type => exact (precedes_of_typeTag (hc.toOn.of_nextToken next).1.toOn type).2
  | broken next type _ body =>
    have hd := (precedes_of_typeTag (hc.toOn.of_nextToken next).1.toOn type).1
    exact Component.points_readAttributes hd body

theorem behind_of_declaration {id : Nat} {result : Component × Bool} (hc : c.Behind text token)
    (h : declaration limits id c = (.ok result, d)) : ∃ last, d.Behind text last := by
  cases DeclarationOutcome.of_eq h with
  | @complete _ _ last _ _ _ _ _ next type _ body =>
    have hd := (precedes_of_typeTag (hc.toOn.of_nextToken next).1.toOn type).1
    exact ⟨last, (Component.behind_of_readAttributes hd body).note _⟩

/-! ### Runs -/

/-- **Where a run over a text stands**: before its first line, or behind some token of it. -/
def Placed (text : List Char) (s : Stage) : Prop :=
  s.opened = false ∧ s.cursor = .ofText text ∨ ∃ token, s.cursor.Behind text token

theorem placed_of_step {s t : Stage} (hs : Placed text s) (h : s.step limits = .inl t) :
    Placed text t := by
  rcases Stage.step_eq_inl h with ⟨hopened, -, component, next, d, hd, rfl⟩ |
    ⟨-, token, d, hd, -, rfl⟩
  · rcases hs with ⟨hclosed, -⟩ | ⟨token, hs⟩
    · cases hopened.symm.trans hclosed
    · exact Or.inr (behind_of_declaration hs hd)
  · rcases hs with ⟨-, hstart⟩ | ⟨last, hs⟩
    · rw [hstart] at hd
      exact Or.inr ⟨token, Cursor.behind_of_pull_ofText hd⟩
    · exact Or.inr ⟨token, hs.toOn.of_pull hd⟩

theorem placed_of_reaches {s : Stage} (h : Stage.Reaches limits (.start (.ofText text)) s) :
    Placed text s := by
  induction h with
  | refl => exact Or.inl ⟨rfl, rfl⟩
  | tail _ hstep ih => exact placed_of_step ih hstep

/-- **Every error has a real place and points at its offender.** If a text cannot be read and the
error has a place, then it is a place of the text: the line exists, and the offset lies within it,
between two characters. What stands there is what the error is about. -/
theorem points_of_read (h : (read limits (.ofText text)).1 = .error e) :
    (∀ p, e.position? = some p → p.IsPlace text) ∧ e.Points limits text := by
  have hpoints : e.Points limits text := by
    obtain ⟨s, hreach, hstop⟩ := exists_reaches_ending limits text
    have hplaced := placed_of_reaches hreach
    have hcause := ending_of_read_error.mp h
    rcases Stage.step_eq_inr hstop with ⟨-, -, hend⟩ | ⟨hopened, -, e', d, hd, hend⟩ |
      ⟨-, d, -, hend⟩ | ⟨-, d, -, hend⟩
    · rw [hend] at hcause
      cases hcause
      trivial
    · rw [hend] at hcause
      obtain rfl : e' = e := Cause.failure.inj hcause
      rcases hplaced with ⟨hclosed, -⟩ | ⟨token, hplaced⟩
      · cases hopened.symm.trans hclosed
      · exact points_declaration hplaced hd
    · rw [hend] at hcause
      cases hcause
    · rw [hend] at hcause
      cases hcause
  exact ⟨fun p hp => hpoints.isPlace hp, hpoints⟩

/-- A matrix that is never closed, behind a name with characters of two bytes. -/
def unclosedMatrix : List Char :=
  "<ComponentName> größe <AffineComponent> <LinearParams> [ 1 2\n3 4\n".toList

theorem points_of_read_unclosedMatrix :
    (read .standard (.ofText unclosedMatrix)).1 = .error (.unterminatedMatrix ⟨1, 56⟩) ∧
      (∀ p, (ParseError.unterminatedMatrix ⟨1, 56⟩).position? = some p →
        p.IsPlace unclosedMatrix) ∧
      (ParseError.unterminatedMatrix ⟨1, 56⟩).Points .standard unclosedMatrix := by
  have hread : (read .standard (.ofText unclosedMatrix)).1 =
      .error (.unterminatedMatrix ⟨1, 56⟩) := by decide +kernel
  exact ⟨hread, points_of_read hread⟩

end Section

end NnetText
