import NnetText.Log.Reading
import NnetText.Proofs.Correspondence

/-!
# Readers do not look at the trail

While a section is read, a trail of notices grows behind the cursor. The preferences tell some of
them and not others. To say that this is no concern of the readers, `Cursor.told` takes the notices
that are not told out of a trail, and a reader is *blind* (`Cursor.Blind`) if it makes no difference
whether that is done before it or after it.

A blind reader may add to the trail, but only what is told in any case. This is so for all readers
of tokens, lines and literals, since none of them notices anything but a line that cannot be
decoded.
-/

namespace NnetText

/-- Whether a notice is told. -/
def ReadingPreferences.wants (p : ReadingPreferences) (n : Notice) : Bool :=
  (Notice.event? p n).isSome

namespace ReadingPreferences

variable (p : ReadingPreferences)

theorem wants_skippedTag (component tag : String) (place : Position) :
    p.wants (.skippedTag component tag place) = p.skippedTags := by
  cases h : p.skippedTags <;> simp [wants, Notice.event?, h]

theorem wants_componentRead (id : Nat) (name typeTag : String) (attributes constants : Nat) :
    p.wants (.componentRead id name typeTag attributes constants) = p.componentSummaries := by
  cases h : p.componentSummaries <;> simp [wants, Notice.event?, h]

end ReadingPreferences

variable {p : ReadingPreferences}

namespace Cursor

/-- **The cursor as it is told**, with only those notices in its trail that are. -/
def told (p : ReadingPreferences) (c : Cursor) : Cursor :=
  { c with trail := c.trail.filter p.wants }

@[simp] theorem position_told (c : Cursor) : (c.told p).position = c.position := rfl

theorem position_eq_of_told {c d : Cursor} (h : c.told p = d.told p) :
    c.position = d.position := by
  rw [← position_told (p := p) c, h, position_told]

theorem told_note_of_wants {n : Notice} (h : p.wants n = true) (c : Cursor) :
    (c.note n).told p = (c.told p).note n := by
  simp [told, note, h]

theorem told_note_of_not_wants {n : Notice} (h : p.wants n = false) (c : Cursor) :
    (c.note n).told p = c.told p := by
  simp [told, note, h]

/-- **A notice that is not told may as well be left out.** -/
theorem told_note_eq {c d : Cursor} (h : c.told p = d.told p) (n : Notice) :
    (c.note n).told p = (if p.wants n then d.note n else d).told p := by
  cases hn : p.wants n with
  | false => rw [told_note_of_not_wants hn, if_neg Bool.false_ne_true, h]
  | true => rw [told_note_of_wants hn, if_pos rfl, told_note_of_wants hn, h]

/-- **The cursor without its trail**: where it stands and what it has before it. -/
def untrailed (c : Cursor) : Cursor := { c with trail := [] }

theorem untrailed_told (c : Cursor) : (c.told p).untrailed = c.untrailed := rfl

/-- The events of a cursor are those of the cursor as it is told. -/
theorem events_notices_told (c : Cursor) :
    Notice.events p (c.told p).notices = Notice.events p c.notices := by
  have hnotices : (c.told p).notices = c.notices.filter p.wants := List.filter_reverse.symm
  rw [hnotices, Notice.events, Notice.events, List.filterMap_filter]
  congr 1
  funext n
  cases h : Notice.event? p n with
  | none => simp [ReadingPreferences.wants, h]
  | some e => simp [ReadingPreferences.wants, h]

/-! ### Readers -/

/-- **A reader does not look at the trail**: it does the same with a cursor as it is told. -/
def Blind (p : ReadingPreferences) {α : Type} (f : Cursor → α × Cursor) : Prop :=
  ∀ c, f (c.told p) = ((f c).1, (f c).2.told p)

theorem Blind.of_eq {α : Type} {f : Cursor → α × Cursor} (hf : Blind p f) {c d : Cursor} {a : α}
    (h : f c = (a, d)) : f (c.told p) = (a, d.told p) := by
  rw [hf c, h]

/-- Cursors that are told alike are read alike. -/
theorem Blind.exists_of_eq {α : Type} {f : Cursor → α × Cursor} (hf : Blind p f)
    {c c' d : Cursor} {a : α} (htold : c.told p = d.told p) (h : f c = (a, c')) :
    ∃ d', f d = (a, d') ∧ c'.told p = d'.told p := by
  have heq : ((f d).1, (f d).2.told p) = (a, c'.told p) := by
    rw [← hf d, ← htold, hf.of_eq h]
  obtain ⟨hresult, hcursor⟩ := Prod.mk.inj heq
  exact ⟨(f d).2, Prod.ext hresult rfl, hcursor.symm⟩

theorem blind_nextToken : Blind p nextToken := fun _ => rfl

theorem blind_skipBlanks : Blind p skipBlanks := fun _ => rfl

theorem blind_advance : Blind p advance := by
  intro c
  have hpending : (c.told p).pending = c.pending := rfl
  rcases advance_cases c with ⟨hp, heq⟩ | ⟨line, rest, hp, heq⟩ | ⟨reason, rest, hp, heq⟩
  · rw [heq, advance_of_nil (hpending.trans hp)]
  · rw [heq, advance_of_text (hpending.trans hp)]
    rfl
  · rw [heq, advance_of_failed (hpending.trans hp), told_note_of_wants rfl]
    rfl

theorem blind_pull : Blind p pull := by
  intro c
  fun_induction pull c with
  | case1 c token d hd => rw [pull_of_nextToken (blind_nextToken.of_eq hd)]
  | case2 c d hd e he ih =>
    rw [pull_of_advance (blind_nextToken.of_eq hd) (blind_advance.of_eq he), ih]
  | case3 c d hd e he =>
    rw [pull_of_advance_false (blind_nextToken.of_eq hd) (blind_advance.of_eq he)]

end Cursor

open Cursor

theorem Scalar.blind_read {α : Type} (expected : Expected)
    (judge : String → Position → Except ParseError α) : Blind p (read expected judge) := by
  intro c
  rw [read, read, blind_nextToken c]
  rcases c.nextToken with ⟨_ | token, d⟩
  · rfl
  · rfl

namespace Bracketed

theorem blind_openBracket : Blind p openBracket := by
  intro c
  rcases h : c.nextToken with ⟨token, d⟩
  have htold : (c.told p).nextToken = (token, d.told p) := blind_nextToken.of_eq h
  by_cases htoken : token = some "["
  · subst htoken
    rw [openBracket, openBracket, h, htold]
    rfl
  · rw [openBracket_of_ne h htoken, openBracket_of_ne htold htoken]
    rfl

theorem blind_elements {α : Type} (limit : Nat)
    (judge : String → Position → Except ParseError α) (start : Position) (found : List α) :
    Blind p (elements limit judge start found) := by
  intro c
  fun_induction elements limit judge start found c with
  | case1 found c d h => rw [elements_eq, blind_pull.of_eq h]
  | case2 found c d h =>
    rw [elements_eq, blind_pull.of_eq h]
    rfl
  | case3 found c token d h hne hlimit =>
    simp only [elements_eq _ _ _ _ (c.told p), blind_pull.of_eq h, if_neg hne, if_pos hlimit]
  | case4 found c token d h hne hlimit e he =>
    simp only [elements_eq _ _ _ _ (c.told p), blind_pull.of_eq h, if_neg hne, if_neg hlimit,
      position_told, he]
  | case5 found c token d h hne hlimit x hx ih =>
    simp only [elements_eq _ _ _ _ (c.told p), blind_pull.of_eq h, if_neg hne, if_neg hlimit,
      position_told, hx]
    exact ih

theorem blind_vector {α : Type} (limits : Limits)
    (judge : String → Position → Except ParseError α) : Blind p (vector limits judge) := by
  intro c
  rw [vector, vector, blind_openBracket c]
  rcases openBracket c with ⟨e | start, d⟩
  · rfl
  · exact blind_elements _ _ _ _ d

theorem blind_elementToken : Blind p elementToken := by
  intro c
  rcases h : c.nextToken with ⟨token, d⟩
  have htold : (c.told p).nextToken = (token, d.told p) := blind_nextToken.of_eq h
  by_cases htoken : token = some "["
  · subst htoken
    rw [elementToken, elementToken, h, htold]
    exact blind_nextToken d
  · rw [elementToken_of_ne h htoken, elementToken_of_ne htold htoken]

theorem blind_rows (limit : Nat) (start : Position) (found : RowsFound) :
    Blind p (rows limit start found) := by
  intro c
  fun_induction rows limit start found c with
  | case1 found c d h e he ih =>
    simp only [rows_eq _ _ _ (c.told p), blind_elementToken.of_eq h, blind_advance.of_eq he]
    exact ih
  | case2 found c d h e he =>
    simp only [rows_eq _ _ _ (c.told p), blind_elementToken.of_eq h, blind_advance.of_eq he]
  | case3 found c d h =>
    simp only [rows_eq _ _ _ (c.told p), blind_elementToken.of_eq h, if_pos, position_told]
  | case4 found c token d h hne hlimit =>
    simp only [rows_eq _ _ _ (c.told p), blind_elementToken.of_eq h, if_neg hne, if_pos hlimit]
  | case5 found c token d h hne hlimit e he =>
    simp only [rows_eq _ _ _ (c.told p), blind_elementToken.of_eq h, if_neg hne, if_neg hlimit,
      position_told, he]
  | case6 found c token d h hne hlimit x hx e he ih =>
    simp only [rows_eq _ _ _ (c.told p), blind_elementToken.of_eq h, if_neg hne, if_neg hlimit,
      position_told, hx, blind_skipBlanks.of_eq he, if_true]
    exact ih
  | case7 found c token d h hne hlimit x hx e he ih =>
    simp only [rows_eq _ _ _ (c.told p), blind_elementToken.of_eq h, if_neg hne, if_neg hlimit,
      position_told, hx, blind_skipBlanks.of_eq he, Bool.false_eq_true, if_false]
    exact ih

theorem blind_matrix (limits : Limits) : Blind p (matrix limits) := by
  intro c
  rw [matrix, matrix, blind_openBracket c]
  rcases openBracket c with ⟨e | start, d⟩
  · rfl
  · exact blind_rows _ _ _ d

end Bracketed

theorem Literal.blind_read (limits : Limits) (l : Literal) : Blind p (l.read limits) := by
  have hwrap : ∀ {α : Type} {make : α → Value} {f : Cursor → Reading α}, Blind p f →
      Blind p fun c => wrap make (f c) := by
    intro α make f hf c
    change wrap make (f (c.told p)) = _
    rw [hf c]
    rfl
  cases l with
  | bool => exact hwrap (Scalar.blind_read _ _)
  | int => exact hwrap (Scalar.blind_read _ _)
  | float => exact hwrap (Scalar.blind_read _ _)
  | ints => exact hwrap (Bracketed.blind_vector _ _)
  | floats => exact hwrap (Bracketed.blind_vector _ _)
  | matrix => exact hwrap (Bracketed.blind_matrix _)

namespace Section

theorem blind_typeTag : Blind p typeTag := by
  intro c
  rw [typeTag, typeTag, blind_nextToken c]
  rcases c.nextToken with ⟨_ | token, d⟩
  · rfl
  · by_cases htoken : Tag.isComponentType token = true
    · simp only [if_pos htoken]
    · simp only [if_neg htoken, position_told]

theorem blind_seekOpener : Blind p seekOpener := by
  intro c
  fun_induction seekOpener c with
  | case1 c d h => rw [seekOpener, blind_pull.of_eq h]
  | case2 c d h =>
    rw [seekOpener, blind_pull.of_eq h]
    rfl
  | case3 c d h =>
    rw [seekOpener, blind_pull.of_eq h]
    rfl
  | case4 c token d h hend hopen ih =>
    rw [seekOpener, blind_pull.of_eq h]
    simp only [if_neg hend, if_neg hopen]
    exact ih

end Section

end NnetText
