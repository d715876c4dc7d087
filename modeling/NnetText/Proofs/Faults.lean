import NnetText.Proofs.Outcomes

/-!
# The faults of a declaration

The bound on the number of components is a matter of the section and not of any single
declaration. No reader inside a declaration reports it: `Section.isCount_declaration`.
So when a section reports it, the reading has come to an opener for which there was no
room, and not to a fault behind one.

The readers of vectors are given a judge of single tokens. All that has to be known of it is
that it finds fault with the token alone (`Scalar.IsJudge`).
-/

namespace NnetText

/-- Whether an error is about the number of components. -/
def ParseError.isCount : ParseError → Bool
  | tooManyComponents _ => true
  | _ => false

/-! ### Literals -/

namespace Scalar

/-- **What can be wrong with a token**: it is not what it should be. The error shows the token and
the place behind it. -/
inductive Fault (token : String) (place : Position) : ParseError → Prop
  | bool : Fault token place (.invalidBoolean token place)
  | integer (fault : IntegerFault) : Fault token place (.invalidInteger token place fault)
  | float (fault : DecimalFault) : Fault token place (.invalidFloat token place fault)

/-- A judge finds nothing wrong but with the token. -/
def IsJudge {α : Type} (judge : String → Position → Except ParseError α) : Prop :=
  ∀ {token place e}, judge token place = .error e → Fault token place e

theorem isJudge_bool : IsJudge bool := by
  intro token place e h
  unfold bool at h
  split at h
  · cases h
  · split at h <;> cases h
    exact .bool

theorem isJudge_integer : IsJudge integer := by
  intro token place e h
  unfold integer at h
  split at h <;> cases h
  exact .integer _

theorem isJudge_float (f : Format) : IsJudge (float f) := by
  intro token place e h
  unfold float at h
  split at h <;> cases h
  exact .float _

theorem Fault.isCount {token : String} {place : Position} {e : ParseError}
    (h : Fault token place e) : e.isCount = false := by
  cases h <;> rfl

theorem isCount_read {α : Type} {expected : Expected}
    {judge : String → Position → Except ParseError α}
    (hjudge : IsJudge judge)
    {c d : Cursor} {e : ParseError} (h : read expected judge c = (.error e, d)) :
    e.isCount = false := by
  unfold read at h
  split at h
  · cases h
    rfl
  · exact (hjudge (Prod.mk.inj h).1).isCount

end Scalar

namespace Bracketed

theorem isCount_openBracket {c d : Cursor} {e : ParseError}
    (h : openBracket c = (.error e, d)) : e.isCount = false := by
  unfold openBracket at h
  split at h <;> cases h
  rfl

theorem isCount_elements {α : Type} {limit : Nat}
    {judge : String → Position → Except ParseError α}
    (hjudge : Scalar.IsJudge judge)
    {start : Position} {found : List α} {c d : Cursor} {e : ParseError}
    (h : elements limit judge start found c = (.error e, d)) : e.isCount = false := by
  fun_induction elements limit judge start found c with
  | case1 found c d' hpull =>
    cases h
    rfl
  | case2 found c d' hpull => cases h
  | case3 found c token d' hpull hne hlimit =>
    cases h
    rfl
  | case4 found c token d' hpull hne hlimit fault hfault =>
    cases h
    exact (hjudge hfault).isCount
  | case5 found c token d' hpull hne hlimit x hx ih => exact ih h

theorem isCount_vector {α : Type} {limits : Limits}
    {judge : String → Position → Except ParseError α}
    (hjudge : Scalar.IsJudge judge)
    {c d : Cursor} {e : ParseError} (h : vector limits judge c = (.error e, d)) :
    e.isCount = false := by
  unfold vector at h
  split at h
  · rename_i hopen
    cases h
    exact isCount_openBracket hopen
  · exact isCount_elements hjudge h

theorem isCount_rows {limit : Nat} {start : Position} {found : RowsFound} {c d : Cursor}
    {e : ParseError} (h : rows limit start found c = (.error e, d)) : e.isCount = false := by
  fun_induction rows limit start found c with
  | case1 found c d' hnone e' hadvance ih => exact ih h
  | case2 found c d' hnone e' hadvance =>
    cases h
    rfl
  | case3 found c d' hsome =>
    have hfinish := (Prod.mk.inj h).1
    unfold finish at hfinish
    split at hfinish <;> cases hfinish
    rfl
  | case4 found c token d' hsome hne hlimit =>
    cases h
    rfl
  | case5 found c token d' hsome hne hlimit fault hfault =>
    cases h
    exact (Scalar.isJudge_float _ hfault).isCount
  | case6 found c token d' hsome hne hlimit x hx e' hskip ih => exact ih h
  | case7 found c token d' hsome hne hlimit x hx e' hskip ih => exact ih h

theorem isCount_matrix {limits : Limits} {c d : Cursor} {e : ParseError}
    (h : matrix limits c = (.error e, d)) : e.isCount = false := by
  unfold matrix at h
  split at h
  · rename_i hopen
    cases h
    exact isCount_openBracket hopen
  · exact isCount_rows h

end Bracketed

namespace Literal

theorem eq_error_of_wrap {α : Type} {make : α → Value} {r : Reading α} {e : ParseError}
    {d : Cursor} (h : wrap make r = (.error e, d)) : r = (.error e, d) := by
  obtain ⟨_ | x, c⟩ := r
  · simpa [wrap, Except.map] using h
  · simp [wrap, Except.map] at h

theorem isCount_read {limits : Limits} {l : Literal} {c d : Cursor} {e : ParseError}
    (h : l.read limits c = (.error e, d)) : e.isCount = false := by
  cases l with
  | bool => exact Scalar.isCount_read Scalar.isJudge_bool (eq_error_of_wrap h)
  | int => exact Scalar.isCount_read Scalar.isJudge_integer (eq_error_of_wrap h)
  | float => exact Scalar.isCount_read (Scalar.isJudge_float _) (eq_error_of_wrap h)
  | ints => exact Bracketed.isCount_vector Scalar.isJudge_integer (eq_error_of_wrap h)
  | floats => exact Bracketed.isCount_vector (Scalar.isJudge_float _) (eq_error_of_wrap h)
  | matrix => exact Bracketed.isCount_matrix (eq_error_of_wrap h)

end Literal

/-! ### Declarations -/

namespace Component

theorem isCount_collect {limits : Limits} {ends : List String} {record collected : Component}
    {c d : Cursor} {e : ParseError}
    (h : collect limits ends record c = (.error e, collected, d)) : e.isCount = false := by
  fun_induction collect limits ends record c with
  | case1 record c d' hpull =>
    cases h
    rfl
  | case2 record c token d' hpull hmem => cases h
  | case3 record c token d' hpull hmem hrule ih => exact ih h
  | case4 record c token d' hpull hmem rule hrule fault e' hread =>
    cases h
    exact Literal.isCount_read hread
  | case5 record c token d' hpull hmem rule hrule value e' hread ih => exact ih h

theorem isCount_readAttributes {limits : Limits} {ends : List String}
    {record after : Component} {c d : Cursor} {e : ParseError}
    (h : readAttributes limits ends record c = (.error e, after, d)) : e.isCount = false := by
  cases BodyOutcome.of_eq h with
  | broken body => exact isCount_collect body
  | inconsistent body => rfl

end Component

namespace Section

/-- **No declaration reports that there are too many of them.** -/
theorem isCount_declaration {limits : Limits} {id : Nat} {c d : Cursor} {e : ParseError}
    (h : declaration limits id c = (.error e, d)) : e.isCount = false := by
  cases DeclarationOutcome.of_eq h with
  | unnamed _ | unsupported _ _ => rfl
  | untyped _ type =>
    cases TypeTagOutcome.of_eq type with
    | missing _ | invalid _ => rfl
  | broken _ _ _ body => exact Component.isCount_readAttributes body

end Section

end NnetText
