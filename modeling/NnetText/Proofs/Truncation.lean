import Mathlib.Control.Monad.Basic
import NnetText.Proofs.Frame

/-!
# Texts cut short

A text that is cut between two lines is never misread: either the cut shows, and reading
fails for want of input, or it falls between two declarations, and what is read is the
components before it (`Section.read_firstLines`).

The run over the first lines goes in step with the run over the whole text
(`Section.tracks_start`) until it runs out of input. By then both have found the same
components, and whatever else the run over the whole text finds comes after them
(`Section.Stage.found_suffix_run`).
-/

namespace NnetText

/-- The first `k` lines of a text. -/
def firstLines (k : Nat) (text : List Char) : List Char := ((linesOf text).take k).flatten

/-- The lines of a text are its first ones and the others. -/
theorem ofText_eq_append_firstLines (k : Nat) (text : List Char) :
    SourceLine.ofText text =
      SourceLine.ofText (firstLines k text) ++ ((linesOf text).drop k).map .text := by
  rw [ofText_eq_map_linesOf, ofText_eq_map_linesOf, firstLines, linesOf_flatten_take,
    ← List.map_append, List.take_append_drop]

namespace Section

/-- **What is found in the first lines is found first**, and there may be more behind. -/
theorem found_firstLines_suffix (limits : Limits) (k : Nat) (text : List Char) :
    (ending limits (firstLines k text)).found <:+ (ending limits text).found := by
  obtain ⟨s, hs, hstop⟩ := exists_reaches_ending limits (firstLines k text)
  obtain ⟨t, ht, htracks⟩ :=
    (tracks_start limits (ofText_eq_append_firstLines k text)).exists_reaches
      (Comparison.lawful_frame 0 _) hs
  have hfirst : (ending limits (firstLines k text)).found = t.found := by
    rw [Stage.found_of_stop hstop]
    simpa using htracks.found.symm
  have hwhole : ending limits text = t.run limits := Stage.run_eq_of_reaches ht
  rw [hfirst, hwhole]
  exact Stage.found_suffix_run limits t

/-- **A text cut short is not misread.** If a text can be read, then its first lines read
as the first of its components, or are given up because the input ends inside a vector, a
matrix or a declaration. -/
theorem read_firstLines {limits : Limits} {text : List Char} {components : List Component}
    (h : (read limits (.ofText text)).1 = .ok components) (k : Nat) :
    (∃ first, (read limits (.ofText (firstLines k text))).1 = .ok first ∧
      first <+: components) ∨
    ∃ place, (read limits (.ofText (firstLines k text))).1 =
        .error (.unterminatedVector place) ∨
      (read limits (.ofText (firstLines k text))).1 = .error (.unterminatedMatrix place) ∨
      (read limits (.ofText (firstLines k text))).1 = .error (.unexpectedEndOfInput place) := by
  rcases read_eq_or_isTruncation limits (ofText_eq_append_firstLines k text) with
    heq | htruncated
  · exact Or.inl ⟨components, heq.symm.trans h, List.prefix_rfl⟩
  · cases hcause : (ending limits (firstLines k text)).cause with
    | inputEnd =>
      -- the cut falls between two declarations
      obtain ⟨rfl, -⟩ := ending_of_read_ok h
      have hne : ∀ e, (ending limits (firstLines k text)).cause ≠ .failure e := by
        simp [hcause]
      exact Or.inl ⟨_, read_eq_ok hne,
        List.reverse_prefix.mpr (found_firstLines_suffix limits k text)⟩
    | sectionEnd =>
      rw [hcause] at htruncated
      cases htruncated
    | failure e =>
      rw [hcause] at htruncated
      obtain ⟨place, he⟩ := ParseError.isTruncation_iff.mp htruncated
      refine Or.inr ⟨place, ?_⟩
      rw [ending_of_read_error.mpr hcause]
      simpa using he

/-- A declaration on two lines and one on a third. -/
def threeLines : List Char :=
  "<ComponentName> a <NoOpComponent>\n<Dim> 4 </NoOpComponent>\n".toList ++
    "<ComponentName> b <NoOpComponent> </NoOpComponent>".toList

/-- The components of that text. -/
def componentsOfThreeLines : List Component :=
  [{ id := 0, name := "a", kind := .generic, typeTag := "NoOpComponent", inputs := [],
      dim := some 4 },
    { id := 1, name := "b", kind := .generic, typeTag := "NoOpComponent", inputs := [] }]

theorem read_firstLines_threeLines :
    (read .standard (.ofText threeLines)).1 = .ok componentsOfThreeLines ∧
      ((∃ first, (read .standard (.ofText (firstLines 2 threeLines))).1 = .ok first ∧
        first <+: componentsOfThreeLines) ∨
      ∃ place, (read .standard (.ofText (firstLines 2 threeLines))).1 =
          .error (.unterminatedVector place) ∨
        (read .standard (.ofText (firstLines 2 threeLines))).1 =
          .error (.unterminatedMatrix place) ∨
        (read .standard (.ofText (firstLines 2 threeLines))).1 =
          .error (.unexpectedEndOfInput place)) := by
  have hread : (read .standard (.ofText threeLines)).1 = .ok componentsOfThreeLines := by
    decide +kernel
  exact ⟨hread, read_firstLines hread 2⟩

end Section

end NnetText
