import Mathlib.Logic.Relation
import NnetText.Proofs.BrokenBodies
import NnetText.Proofs.Locality

/-!
# Tokens that are passed over

Among the values of a body there may be tokens that nobody asks for. They are inert: wherever the
loop looks for a tag, a token that is none and that does not end the body can be put in, or taken
out, and the outcome stays what it was (`Component.outcome_of_insertions`). This holds of brackets
and numbers too, since no value is being read where the loop looks for a tag.

The two texts are compared in two parts. Up to the point of the insertion they are the same, and the
loop comes to the point in the same way, since it has not looked behind it
(`Component.Reads.exists_reframed`). At the point the new text has one more token, which the loop
passes over. Then the cursors have the same text ahead, on lines of the same number, and differ in
their offsets alone (`Cursor.Alongside`); the rest of the loop goes the same way.
-/

namespace NnetText

open LinePlace (blanksOf tokenOf behindToken)

/-- A place, up to its offset. -/
def Position.lineOnly (p : Position) : Position := ⟨p.line, 0⟩

/-! ### The same text ahead -/

/-- **The cursors have the same text ahead**, on lines of the same number. -/
structure Cursor.Alongside (c d : Cursor) : Prop where
  lineNumber : d.lineNumber = c.lineNumber
  lineRest : d.lineRest = c.lineRest
  pending : d.pending = c.pending

namespace Comparison

/-- The comparison of cursors with the same text ahead, which is blind to offsets. -/
def alongside : Comparison where
  rel := Cursor.Alongside
  ended := fun c d => d.lineNumber = c.lineNumber
  left := Position.lineOnly
  right := Position.lineOnly
  cut := False

end Comparison

namespace Cursor.Alongside

variable {c d c' : Cursor}

/-- Cursors behind their next tokens, where the token is the same and so is what stands behind it.
-/
theorem of_nextToken {token : Option String} (hnumber : d.lineNumber = c.lineNumber)
    (hpending : d.pending = c.pending) (htoken : tokenOf d.lineRest = tokenOf c.lineRest)
    (hbehind : behindToken d.lineRest = behindToken c.lineRest)
    (hc : c.nextToken = (token, c')) :
    ∃ d', d.nextToken = (token, d') ∧ Alongside c' d' := by
  obtain ⟨htokenc, hrestc⟩ := c.nextToken_lineRest
  obtain ⟨htokend, hrestd⟩ := d.nextToken_lineRest
  obtain rfl : c.nextToken.2 = c' := congrArg Prod.snd hc
  have hfirst : d.nextToken.1 = token := by
    rw [htokend, htoken, ← htokenc, hc]
  exact ⟨d.nextToken.2, Prod.ext hfirst rfl, hnumber, by rw [hrestd, hbehind, hrestc], hpending⟩

theorem skipBlanks {feed : Bool} (h : Alongside c d) (hc : c.skipBlanks = (feed, c')) :
    ∃ d', d.skipBlanks = (feed, d') ∧ Alongside c' d' := by
  obtain ⟨hfeedc, hrestc⟩ := c.skipBlanks_lineRest
  obtain ⟨hfeedd, hrestd⟩ := d.skipBlanks_lineRest
  obtain rfl : c.skipBlanks.2 = c' := congrArg Prod.snd hc
  have hfeed : d.skipBlanks.1 = feed := by
    rw [hfeedd, h.lineRest, ← hfeedc, hc]
  exact ⟨d.skipBlanks.2, Prod.ext hfeed rfl, h.lineNumber, by rw [hrestd, h.lineRest, hrestc],
    h.pending⟩

theorem advance (h : Alongside c d) (hc : c.advance = (true, c')) :
    ∃ d', d.advance = (true, d') ∧ Alongside c' d' := by
  rcases advance_cases c with ⟨-, heq⟩ | ⟨line, rest, hp, heq⟩ | ⟨reason, rest, -, heq⟩
  · cases heq.symm.trans hc
  · obtain rfl := (Prod.mk.inj (heq.symm.trans hc)).2
    refine ⟨_, advance_of_text (h.pending.trans hp), ?_, rfl, rfl⟩
    simp only [h.lineNumber]
  · cases heq.symm.trans hc

theorem advance_false (h : Alongside c d) (hc : c.advance = (false, c')) :
    ∃ d', d.advance = (false, d') ∧ d'.lineNumber = c'.lineNumber := by
  rcases advance_cases c with ⟨hp, heq⟩ | ⟨line, rest, -, heq⟩ | ⟨reason, rest, hp, heq⟩
  · obtain rfl := (Prod.mk.inj (heq.symm.trans hc)).2
    exact ⟨_, advance_of_nil (h.pending.trans hp), h.lineNumber⟩
  · cases heq.symm.trans hc
  · obtain rfl := (Prod.mk.inj (heq.symm.trans hc)).2
    exact ⟨_, advance_of_failed (h.pending.trans hp), h.lineNumber⟩

end Cursor.Alongside

theorem Comparison.linewise_alongside : alongside.Linewise where
  ended_of_rel := fun h => h.lineNumber
  note := fun _ _ h => ⟨h.lineNumber, h.lineRest, h.pending⟩
  place := by
    intro c d h
    exact congrArg (fun n => (⟨n, 0⟩ : Position)) h.symm
  nextToken := fun h hc =>
    Cursor.Alongside.of_nextToken h.lineNumber h.pending (by rw [h.lineRest])
      (by rw [h.lineRest]) hc
  skipBlanks := fun h hc => h.skipBlanks hc
  advance := fun h hc => h.advance hc
  advance_false := fun h hc => Or.inl (h.advance_false hc)

/-! ### Over blanks to a point -/

namespace Cursor

variable {b : List Char} {later : List SourceLine} {c d : Cursor}

/-- **Only blanks lead to a point** behind which `b` is left of the line and `later` follows: blank
lines, and the blanks in front of the point. -/
def OverBlanks (b : List Char) (later : List SourceLine) (c : Cursor) : Prop :=
  ∃ (lines : List (List Char)) (blanks : List Char),
    c.view = lines.map .text ++ .text (blanks ++ b) :: later ∧
      (∀ line ∈ lines, ∀ x ∈ line, isBlank x = true) ∧ ∀ x ∈ blanks, isBlank x = true

/-- **Blank lines can be left behind**: the same token is pulled from the line of the point. -/
theorem exists_pull_eq {lines : List (List Char)} {text : List Char}
    (hlines : ∀ line ∈ lines, ∀ x ∈ line, isBlank x = true)
    (h : c.view = lines.map .text ++ .text text :: later) :
    ∃ d : Cursor, d.pull = c.pull ∧ d.lineRest = text ∧ d.pending = later ∧
      d.lineNumber = c.lineNumber + lines.length := by
  induction lines generalizing c with
  | nil =>
    obtain ⟨hline, hpending⟩ := List.cons.inj h
    exact ⟨c, rfl, SourceLine.text.inj hline, hpending, rfl⟩
  | cons line lines ih =>
    obtain ⟨hline, hpending⟩ := List.cons.inj h
    have hblank : ∀ x ∈ c.lineRest, isBlank x = true := by
      rw [SourceLine.text.inj hline]
      exact hlines line List.mem_cons_self
    have hnext := nextToken_of_blank hblank
    have hp := (pending_of_nextToken hnext).trans hpending
    -- the next line is blank as well, or it is the line of the point
    obtain ⟨e, hadvance, hview, hnumber⟩ : ∃ e, c.nextToken.2.advance = (true, e) ∧
        e.view = lines.map .text ++ .text text :: later ∧ e.lineNumber = c.lineNumber + 1 := by
      rcases lines with _ | ⟨first, lines⟩
      · exact ⟨_, advance_of_text hp, rfl, rfl⟩
      · exact ⟨_, advance_of_text hp, rfl, rfl⟩
    obtain ⟨d, hpull, hrest, hd, hnumber'⟩ :=
      ih (fun l hl => hlines l (List.mem_cons_of_mem _ hl)) hview
    refine ⟨d, hpull.trans (pull_of_advance hnext hadvance).symm, hrest, hd, ?_⟩
    rw [hnumber', hnumber, List.length_cons]
    omega

/-- **Blanks in front of a text do not matter** to the tokens pulled from there on. -/
theorem pulls_of_blanks {u v : List Char} (hu : ∀ x ∈ u, isBlank x = true)
    (hv : ∀ x ∈ v, isBlank x = true) (hc : c.lineRest = u ++ b) (hd : d.lineRest = v ++ b)
    (hpending : d.pending = c.pending) (hnumber : d.lineNumber = c.lineNumber) :
    Comparison.alongside.Pulls c.pull d.pull := by
  have hdrop : d.lineRest.dropWhile isBlank = c.lineRest.dropWhile isBlank := by
    rw [hc, hd, List.dropWhile_append_of_pos hu, List.dropWhile_append_of_pos hv]
  obtain ⟨d', hd', h⟩ := Alongside.of_nextToken hnumber hpending
    (congrArg (List.takeWhile fun x => !isBlank x) hdrop)
    (congrArg (List.dropWhile fun x => !isBlank x) hdrop) rfl
  exact Comparison.linewise_alongside.pulls_of_nextToken rfl hd' h

end Cursor

theorem Starts.blanks_append {text behind blanks : List Char} {token : String}
    (h : Starts text token behind) (hblanks : ∀ x ∈ blanks, isBlank x = true) :
    Starts (blanks ++ text) token behind := by
  obtain ⟨⟨first, hfirst, rfl⟩, hne, hsolid, hbehind⟩ := h
  refine ⟨⟨blanks ++ first, ?_, (List.append_assoc _ _ _).symm⟩, hne, hsolid, hbehind⟩
  intro x hx
  rcases List.mem_append.mp hx with hx | hx
  · exact hblanks x hx
  · exact hfirst x hx

/-! ### Insertions -/

namespace Component

variable {limits : Limits} {ends : List String} {record : Component} {c d : Cursor}

/-- **The outcome of reading a body, up to offsets**: the token that ended it or the error, and the
record as it is then. -/
def outcome (limits : Limits) (ends : List String) (record : Component) (c : Cursor) :
    Except ParseError String × Component :=
  ((record.readAttributes limits ends c).1.mapError (ParseError.mapPlace Position.lineOnly),
    (record.readAttributes limits ends c).2.1)

/-- **A token put in where the loop looks for a tag.** The cursor `c` is in front of the body
without the token, and `d` in front of the one with it. -/
structure Insertion (limits : Limits) (ends : List String) (record : Component)
    (c d : Cursor) where
  /-- Where the loop has come to when it looks for a tag. -/
  head : Cursor
  /-- The values read on the way. -/
  values : List (Rule × Value)
  reads : Reads limits ends record.kind record.name c values head
  /-- The lines before the one of the point. -/
  lines : List SourceLine
  /-- What stands on the line in front of the point. -/
  front : List Char
  /-- What stands on the line behind the point. -/
  behind : List Char
  /-- The lines after the one of the point. -/
  later : List SourceLine
  /-- The token put in. -/
  token : String
  /-- The blanks put in with it, in front of it and behind it. -/
  left : List Char
  right : List Char
  without : c.view = lines ++ .text (front ++ behind) :: later
  withToken : d.view =
    lines ++ .text (front ++ (left ++ (token.toList ++ (right ++ behind)))) :: later
  lineNumber : d.lineNumber = c.lineNumber
  /-- Nothing but blanks stands between the loop and the point. -/
  gap : head.OverBlanks behind later
  blank_left : ∀ x ∈ left, isBlank x = true
  blank_right : ∀ x ∈ right, isBlank x = true
  ne_nil : token.toList ≠ []
  solid : ∀ x ∈ token.toList, isBlank x = false
  /-- The token does not stand right behind one that has been read. -/
  apart_left : left = [] → head = c ∨ head.view ≠ .text behind :: later
  /-- The token does not stand right before another one. -/
  apart_right : right = [] → ∀ x ∈ behind.head?, isBlank x = true
  not_end : token ∉ ends
  not_tag : record.kind.rule? token = none

namespace Insertion

variable (i : Insertion limits ends record c d)
include i

/-- The new text behind the point starts with the token. -/
theorem starts : Starts (i.left ++ (i.token.toList ++ (i.right ++ i.behind))) i.token
    (i.right ++ i.behind) where
  text := ⟨i.left, i.blank_left, rfl⟩
  ne_nil := i.ne_nil
  solid := i.solid
  behind := by
    intro x hx
    rcases hright : i.right with _ | ⟨y, right⟩
    · rw [hright] at hx
      exact i.apart_right hright x hx
    · rw [hright] at hx
      obtain rfl : y = x := by simpa using hx
      exact i.blank_right y (hright ▸ List.mem_cons_self)

theorem reframed : Cursor.Reframed i.behind
    (i.left ++ (i.token.toList ++ (i.right ++ i.behind))) i.later i.later c d :=
  ⟨i.lineNumber, i.lines, i.front, i.without, i.withToken⟩

/-- The loop has not gone past the point. -/
theorem before (h : i.head ≠ c) : i.head.Before i.behind
    (i.left ++ (i.token.toList ++ (i.right ++ i.behind))) i.later := by
  obtain ⟨lines, blanks, hview, -, -⟩ := i.gap
  have hsize := i.head.pendingSize_view
  rw [hview, Cursor.pendingSize_append, Cursor.pendingSize, Cursor.pendingSize,
    List.foldr_cons, ← Cursor.pendingSize, ← Cursor.pendingSize, SourceLine.size,
    List.length_append] at hsize
  refine ⟨by omega, fun heq => ?_⟩
  -- at the point itself there is no blank in front of the token but its own
  have hleft : i.left ≠ [] := by
    intro hnil
    rcases i.apart_left hnil with hhead | hne
    · exact h hhead
    · have hblanks : blanks = [] := List.length_eq_zero_iff.mp (by omega)
      have hlines : lines = [] := by
        rcases lines with _ | ⟨line, lines⟩
        · rfl
        · rw [List.map_cons, Cursor.pendingSize, List.foldr_cons, SourceLine.size] at hsize
          omega
      rw [hblanks, hlines] at hview
      exact hne hview
  intro x hx
  obtain ⟨y, left, hy⟩ := List.exists_cons_of_ne_nil hleft
  rw [hy] at hx
  obtain rfl : y = x := by simpa using hx
  exact i.blank_left y (hy ▸ List.mem_cons_self)

/-- **Both loops come to the point in the same way.** -/
theorem exists_reads : ∃ values e f, Reads limits ends record.kind record.name c values e ∧
    Reads limits ends record.kind record.name d values f ∧ e.OverBlanks i.behind i.later ∧
    Cursor.Reframed i.behind (i.left ++ (i.token.toList ++ (i.right ++ i.behind))) i.later i.later
      e f := by
  by_cases h : i.head = c
  · have hgap := i.gap
    rw [h] at hgap
    exact ⟨[], c, d, .none, .none, hgap, i.reframed⟩
  · obtain ⟨f, hf, hreframed⟩ := i.reads.exists_reframed i.reframed (i.before h)
    exact ⟨i.values, i.head, f, i.reads, hf, i.gap, hreframed⟩

end Insertion

theorem alongside_noteSkipped (name token : String) (c : Cursor) :
    c.Alongside (noteSkipped name token c) := by
  unfold noteSkipped
  split
  · exact ⟨rfl, rfl, rfl⟩
  · exact ⟨rfl, rfl, rfl⟩

/-- **At the point, the loop passes over the token** and goes on alongside the loop over the text
without it. -/
theorem fills_of_overBlanks {b b' right : List Char} {later : List SourceLine} {token : String}
    {e f : Cursor} (hgap : e.OverBlanks b later) (h : Cursor.Reframed b b' later later e f)
    (hstarts : Starts b' token (right ++ b)) (hright : ∀ x ∈ right, isBlank x = true)
    (hends : token ∉ ends) (hrule : record.kind.rule? token = none) :
    Comparison.alongside.Fills record.id (record.collect limits ends e)
      (record.collect limits ends f) := by
  obtain ⟨lines, blanks, he, hlines, hblanks⟩ := hgap
  obtain ⟨hnumber, ls, a, he', hf⟩ := h
  -- the point is the same whichever way it is described
  obtain ⟨rfl, hline⟩ := List.append_inj' (he'.symm.trans he) rfl
  obtain rfl : a = blanks :=
    List.append_cancel_right (SourceLine.text.inj (List.cons.inj hline).1)
  obtain ⟨e', hepull, herest, hepending, henumber⟩ := Cursor.exists_pull_eq hlines he
  obtain ⟨f', hfpull, hfrest, hfpending, hfnumber⟩ := Cursor.exists_pull_eq hlines hf
  have hstarts' := hstarts.blanks_append hblanks
  rw [← hfrest] at hstarts'
  obtain ⟨hnext, hnextRest⟩ := Cursor.nextToken_of_starts hstarts'
  have hpull : f.pull = (some token, f'.nextToken.2) :=
    hfpull.symm.trans (Cursor.pull_of_nextToken hnext)
  have hskip : record.collect limits ends f =
      record.collect limits ends (noteSkipped record.name token f'.nextToken.2) := by
    rw [collect_eq _ _ _ f, hpull]
    simp only [if_neg hends, hrule]
  have hnumber' : f'.nextToken.2.lineNumber = e'.lineNumber := by
    change f'.lineNumber = e'.lineNumber
    rw [hfnumber, henumber, hnumber]
  have hnoted := alongside_noteSkipped record.name token f'.nextToken.2
  have hpulls := Cursor.pulls_of_blanks hblanks hright herest (hnoted.lineRest.trans hnextRest)
    (hnoted.pending.trans (hfpending.trans hepending.symm)) (hnoted.lineNumber.trans hnumber')
  rw [hskip, collect_congr hepull.symm]
  exact Comparison.linewise_alongside.lawful.collect_of_pulls limits ends record.id record hpulls

/-- Bodies that go the same way have the same outcome. -/
theorem outcome_of_fills
    (h : Comparison.alongside.Fills record.id (record.readAttributes limits ends c)
      (record.readAttributes limits ends d)) :
    record.outcome limits ends c = record.outcome limits ends d := by
  have hidentity := identity_of_readAttributes limits ends record c
  unfold outcome
  generalize record.readAttributes limits ends c = r at h hidentity ⊢
  generalize record.readAttributes limits ends d = r' at h ⊢
  cases h with
  | @ok token after _ _ hrel =>
    have hid : after.id = record.id := congrArg Prod.fst hidentity
    rw [← hid]
    rfl
  | @error e e' after _ _ he hended =>
    have hid : after.id = record.id := congrArg Prod.fst hidentity
    rw [← hid]
    exact Prod.ext (congrArg Except.error he) rfl
  | cut hcut he => exact hcut.elim

/-- One token changes nothing. -/
theorem Insertion.outcome_eq (i : Insertion limits ends record c d) :
    record.outcome limits ends c = record.outcome limits ends d := by
  obtain ⟨values, e, f, hc, hd, hgap, hreframed⟩ := i.exists_reads
  obtain ⟨attributes, hwrite⟩ := exists_attributes_write record values
  have hrule : (record.write values).kind.rule? i.token = none := by
    rw [hwrite]
    exact i.not_tag
  have hfills : Comparison.alongside.Fills (record.write values).id
      ((record.write values).collect limits ends e) ((record.write values).collect limits ends f) :=
    fills_of_overBlanks hgap hreframed i.starts i.blank_right i.not_end hrule
  have hid : (record.write values).id = record.id := by rw [hwrite]
  rw [← collect_of_reads hc, ← collect_of_reads hd, hid] at hfills
  have hread : Comparison.alongside.Fills record.id (record.readAttributes limits ends c)
      ((record.withId record.id).readAttributes limits ends d) :=
    Comparison.linewise_alongside.lawful.readAttributes_of_collect hfills
  exact outcome_of_fills hread

/-- **Tokens that are passed over are inert.** Texts that come from one another by putting in and
taking out such tokens, any number of them and anywhere the loop looks for a tag, have the same
outcome. -/
theorem outcome_of_insertions (limits : Limits) (ends : List String) (record : Component)
    {c d : Cursor}
    (h : Relation.EqvGen (fun c d => Nonempty (Insertion limits ends record c d)) c d) :
    record.outcome limits ends c = record.outcome limits ends d := by
  induction h with
  | rel c d h =>
    obtain ⟨i⟩ := h
    exact i.outcome_eq
  | refl c => rfl
  | symm c d _ ih => exact ih.symm
  | trans c d e _ _ ih ih' => exact ih.trans ih'

/-- A layer whose body has not been read. -/
def unreadLayer : Component :=
  { id := 0, name := "a", kind := .affine, typeTag := "AffineComponent", inputs := ["input"] }

/-- A body with a matrix on two lines. -/
def tidyBody : List Char :=
  "<LinearParams> [\n1 2 ]\n</A>".toList

/-- The same body with an opening bracket behind the matrix. -/
def bracketBody : List Char :=
  "<LinearParams> [\n1 2 ] [\n</A>".toList

/-- The same body with a number in front of it. -/
def numberBody : List Char :=
  "7 <LinearParams> [\n1 2 ]\n</A>".toList

def strayBracket : Insertion .standard ["</A>"] unreadLayer (.ofText tidyBody)
    (.ofText bracketBody) where
  head := (Literal.matrix.read .standard (Cursor.ofText tidyBody).pull.2).2
  values := [(⟨"<LinearParams>", .matrix, .params⟩,
    .matrix ⟨2, 1, [Format.single.ofInt 1, Format.single.ofInt 2], by decide⟩)]
  reads := by
    have hpull : (Cursor.ofText tidyBody).pull =
        (some "<LinearParams>", (Cursor.ofText tidyBody).pull.2) := by decide +kernel
    exact .value hpull (by decide) (by decide) (by decide +kernel) .none
  lines := [.text [], .text "<LinearParams> [\n".toList]
  front := "1 2 ]".toList
  behind := ['\n']
  later := [.text "</A>".toList]
  token := "["
  left := [' ']
  right := []
  without := by decide +kernel
  withToken := by decide +kernel
  lineNumber := by decide +kernel
  gap := ⟨[], [], by decide +kernel, List.forall_mem_nil _, List.forall_mem_nil _⟩
  blank_left := List.forall_mem_singleton.mpr rfl
  blank_right := List.forall_mem_nil _
  ne_nil := by decide
  solid := List.forall_mem_singleton.mpr rfl
  apart_left := by decide
  apart_right := fun _ _ hx => Option.some.inj hx ▸ rfl
  not_end := by decide
  not_tag := by decide

def strayNumber : Insertion .standard ["</A>"] unreadLayer (.ofText tidyBody)
    (.ofText numberBody) where
  head := .ofText tidyBody
  values := []
  reads := .none
  lines := [.text []]
  front := []
  behind := "<LinearParams> [\n".toList
  later := [.text "1 2 ]\n".toList, .text "</A>".toList]
  token := "7"
  left := []
  right := [' ']
  without := by decide +kernel
  withToken := by decide +kernel
  lineNumber := by decide +kernel
  gap := ⟨[[]], [], by decide +kernel, List.forall_mem_singleton.mpr (List.forall_mem_nil _),
    List.forall_mem_nil _⟩
  blank_left := List.forall_mem_nil _
  blank_right := List.forall_mem_singleton.mpr rfl
  ne_nil := by decide
  solid := List.forall_mem_singleton.mpr rfl
  apart_left := fun _ => Or.inl rfl
  apart_right := fun h => absurd h (List.cons_ne_nil _ _)
  not_end := by decide
  not_tag := by decide

theorem outcome_of_insertions_strayTokens :
    Relation.EqvGen
        (fun c d => Nonempty (Insertion .standard ["</A>"] unreadLayer c d))
        (.ofText bracketBody) (.ofText numberBody) ∧
      unreadLayer.outcome .standard ["</A>"] (.ofText bracketBody) =
        unreadLayer.outcome .standard ["</A>"] (.ofText numberBody) := by
  have hedits : Relation.EqvGen
      (fun c d => Nonempty (Insertion .standard ["</A>"] unreadLayer c d))
      (.ofText bracketBody) (.ofText numberBody) :=
    .trans _ (.ofText tidyBody) _ (.symm _ _ (.rel _ _ ⟨strayBracket⟩)) (.rel _ _ ⟨strayNumber⟩)
  exact ⟨hedits, outcome_of_insertions .standard ["</A>"] unreadLayer hedits⟩

end Component

end NnetText
