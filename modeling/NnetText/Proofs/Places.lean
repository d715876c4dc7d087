import NnetText.Proofs.Consumption

/-!
# Places of a text

A position is a line number and a byte offset. It is a *place* of a text if there is such a line
and the offset cuts it between two characters (`Position.Splits`). This file ties cursors to
places: `Cursor.On` says that a cursor stands at a place of a text, with the lines behind it still
to come, and that no token is cut in two there. Each step of a cursor keeps this
(`Cursor.on_of_step`), and so does all of reading (`Cursor.Moves.on`).

On top of it stands what a place can be with respect to the tokens around it, in words of the
text alone: the end of a token, the place in front of one, the end of a line or of the text. Taking
a token leads from a place in front of it to a place at its end
(`Cursor.On.of_nextToken`, `Cursor.On.of_pull`).
-/

namespace NnetText

open LinePlace (blanksOf tokenOf behindToken blanksOf_tokenOf_behindToken)

/-! ### Places and tokens -/

/-- **A position cuts a line of the text in two.** Lines are counted from one, offsets in
bytes. -/
structure Position.Splits (p : Position) (text before after : List Char) : Prop where
  pos : 1 ≤ p.line
  line : (linesOf text)[p.line - 1]? = some (before ++ after)
  offset : p.offset = byteSize before

/-- **A token stands by itself** between what comes before and what comes after. -/
structure Delimited (before token after : List Char) : Prop where
  ne_nil : token ≠ []
  solid : ∀ c ∈ token, isBlank c = false
  before : ∀ c ∈ before.getLast?, isBlank c = true
  after : ∀ c ∈ after.head?, isBlank c = true

/-- A cut that leaves all tokens whole. -/
def CleanCut (before after : List Char) : Prop :=
  (∀ c ∈ before.getLast?, isBlank c = true) ∨ ∀ c ∈ after.head?, isBlank c = true

namespace Position

/-- **A position is a place of the text.** -/
def IsPlace (p : Position) (text : List Char) : Prop := ∃ before after, p.Splits text before after

/-- **A token ends here**, as a whole. -/
def EndsToken (p : Position) (text : List Char) (token : String) : Prop :=
  ∃ before after, p.Splits text (before ++ token.toList) after ∧
    Delimited before token.toList after

/-- **The first token from here on**, in the same line. -/
def Precedes (p : Position) (text : List Char) (token : String) : Prop :=
  ∃ before blanks after, p.Splits text before (blanks ++ token.toList ++ after) ∧
    (∀ c ∈ blanks, isBlank c = true) ∧ Delimited (before ++ blanks) token.toList after

/-- **The end of a line**, with nothing but blanks behind its last token. -/
def EndsLine (p : Position) (text : List Char) : Prop :=
  ∃ before token blanks, p.Splits text (before ++ token ++ blanks) [] ∧
    Delimited before token blanks ∧ ∀ c ∈ blanks, isBlank c = true

/-- **The end of the last line.** -/
def EndsText (p : Position) (text : List Char) : Prop :=
  p.line = (linesOf text).length ∧ ∃ line, p.Splits text line []

end Position

/-- What is found behind blanks is whole, if the cut in front of them is clean. -/
theorem delimited_tokenOf {before after : List Char} (h : CleanCut before after)
    (htoken : tokenOf after ≠ []) :
    Delimited (before ++ blanksOf after) (tokenOf after) (behindToken after) where
  ne_nil := htoken
  solid := fun _ hc => isBlank_of_mem_tokenOf hc
  before := by
    intro c hc
    rcases List.eq_nil_or_concat (blanksOf after) with hnil | ⟨blanks, b, hblanks⟩
    · -- the token starts at the cut, so that a blank has to come before it
      obtain ⟨t, ts, ht⟩ := List.exists_cons_of_ne_nil htoken
      have hsolid : isBlank t = false := isBlank_of_mem_tokenOf (ht ▸ List.mem_cons_self)
      have hafter : after.head? = some t := by
        have happend := blanksOf_tokenOf_behindToken after
        rw [hnil, ht] at happend
        rw [← happend]
        rfl
      rw [hnil, List.append_nil] at hc
      rcases h with h | h
      · exact h c hc
      · have hblank := h t hafter
        rw [hsolid] at hblank
        cases hblank
    · have hmem : b ∈ blanksOf after := by simp [hblanks]
      rw [hblanks, List.concat_eq_append, ← List.append_assoc, List.getLast?_concat] at hc
      obtain rfl : b = c := by simpa using hc
      exact isBlank_of_mem_blanksOf hmem
  after := by
    intro c hc
    rcases behindToken_cases after with hnil | ⟨b, bs, hbs, hb⟩
    · rw [hnil] at hc
      cases hc
    · rw [hbs] at hc
      obtain rfl : b = c := by simpa using hc
      exact hb

/-! ### Cursors at places -/

namespace Cursor

/-- **A cursor stands at a place of a text** where no token is cut in two, and the lines behind
are those to come. -/
structure On (text : List Char) (c : Cursor) : Prop where
  pending : c.pending = ((linesOf text).drop c.lineNumber).map .text
  place : ∃ before after, c.position.Splits text before after ∧ c.place.rest = some after ∧
    CleanCut before after

/-- **A token has just been taken.** -/
structure Behind (text : List Char) (token : String) (c : Cursor) : Prop extends c.On text where
  token : ∃ before after, c.position.Splits text (before ++ token.toList) after ∧
    c.place.rest = some after ∧ Delimited before token.toList after

variable {text : List Char} {c d : Cursor} {token : String}

theorem Behind.endsToken (h : c.Behind text token) : c.position.EndsToken text token := by
  obtain ⟨before, after, hsplits, -, hdelimited⟩ := h.token
  exact ⟨before, after, hsplits, hdelimited⟩

theorem Behind.note (h : c.Behind text token) (n : Notice) : (c.note n).Behind text token :=
  ⟨⟨h.pending, h.place⟩, h.token⟩

/-- What a cursor passes over moves from behind its place to the front of it. -/
theorem splits_append {before passed left : List Char}
    (h : c.position.Splits text before (passed ++ left)) (hline : d.lineNumber = c.lineNumber)
    (hoffset : d.offset = c.offset + byteSize passed) :
    d.position.Splits text (before ++ passed) left where
  pos := h.pos.trans_eq hline.symm
  line := by
    rw [List.append_assoc, ← h.line]
    exact congrArg (fun n => (linesOf text)[n - 1]?) hline
  offset := by
    rw [byteSize_append, ← h.offset]
    exact hoffset

theorem lineNumber_of_nextToken {token : Option String} (h : c.nextToken = (token, d)) :
    d.lineNumber = c.lineNumber := by
  obtain rfl : c.nextToken.2 = d := congrArg Prod.snd h
  rfl

/-- A text has no line that cannot be read. -/
theorem On.pending_ne_failed (h : c.On text) (reason : String) (rest : List SourceLine) :
    c.pending ≠ .failed reason :: rest := by
  intro hp
  have hmem : .failed reason ∈ ((linesOf text).drop c.lineNumber).map SourceLine.text := by
    rw [← h.pending, hp]
    exact List.mem_cons_self
  obtain ⟨line, -, hline⟩ := List.mem_map.mp hmem
  cases hline

/-- The next token of the line, if there is one. -/
theorem of_nextToken_of_rest {rest : List Char} (h : c.place.rest = some rest)
    (hd : c.nextToken = (some token, d)) :
    tokenOf rest ≠ [] ∧ token.toList = tokenOf rest ∧ d.place.rest = some (behindToken rest) ∧
      d.offset = c.offset + byteSize (blanksOf rest ++ tokenOf rest) := by
  have htoken := LinePlace.fst_nextToken h
  obtain ⟨hfst, rfl⟩ : c.place.nextToken.1 = some token ∧ c.nextToken.2 = d := Prod.mk.inj hd
  have hne : tokenOf rest ≠ [] := by
    intro hnil
    rw [hfst, hnil] at htoken
    cases htoken
  rw [hfst, if_neg (by simpa using hne)] at htoken
  refine ⟨hne, ?_, LinePlace.rest_nextToken h, LinePlace.offset_nextToken h⟩
  rw [Option.some.inj htoken, String.toList_ofList]

/-- Without a token, the rest of the line is blank and is passed over. -/
theorem of_nextToken_none_of_rest {rest : List Char} (h : c.place.rest = some rest)
    (hd : c.nextToken = (none, d)) :
    (∀ b ∈ rest, isBlank b = true) ∧ d.place.rest = some [] ∧
      d.offset = c.offset + byteSize rest := by
  have htoken := LinePlace.fst_nextToken h
  obtain ⟨hfst, rfl⟩ : c.place.nextToken.1 = none ∧ c.nextToken.2 = d := Prod.mk.inj hd
  have hnil : tokenOf rest = [] := by
    by_contra hne
    rw [hfst, if_neg (by simpa using hne)] at htoken
    cases htoken
  have hblanks := blanksOf_eq_self_of_tokenOf hnil
  have hbehind : behindToken rest = [] := by
    have happend := blanksOf_tokenOf_behindToken rest
    rw [hblanks, hnil, List.append_nil] at happend
    exact List.append_right_eq_self.mp happend
  have hrest := LinePlace.rest_nextToken h
  have hoffset := LinePlace.offset_nextToken h
  rw [hbehind] at hrest
  rw [hblanks, hnil, List.append_nil] at hoffset
  refine ⟨fun b hb => ?_, hrest, hoffset⟩
  rw [← hblanks] at hb
  exact isBlank_of_mem_blanksOf hb

/-- **Taking a token** leads from in front of it to its end. -/
theorem On.of_nextToken (h : c.On text) (hd : c.nextToken = (some token, d)) :
    d.Behind text token ∧ c.position.Precedes text token := by
  obtain ⟨before, after, hsplits, hrest, hclean⟩ := h.place
  obtain ⟨hne, htoken, hrest', hoffset⟩ := of_nextToken_of_rest hrest hd
  have hdelimited := delimited_tokenOf hclean hne
  have hline := lineNumber_of_nextToken hd
  have hpending : d.pending = ((linesOf text).drop d.lineNumber).map .text := by
    rw [pending_of_nextToken hd, hline]
    exact h.pending
  -- the line is cut into what was passed, blanks, the token and what is left
  rw [← blanksOf_tokenOf_behindToken after] at hsplits
  have hsplits' : d.position.Splits text (before ++ blanksOf after ++ tokenOf after)
      (behindToken after) := by
    rw [List.append_assoc before]
    exact splits_append hsplits hline hoffset
  rw [← htoken] at hdelimited hsplits' hsplits
  refine ⟨⟨⟨hpending, _, _, hsplits', hrest', Or.inr hdelimited.after⟩, _, _, hsplits', hrest',
    hdelimited⟩, before, blanksOf after, behindToken after, hsplits, ?_, hdelimited⟩
  exact fun _ hb => isBlank_of_mem_blanksOf hb

/-- **Finding no token** leads to the end of the line. -/
theorem On.of_nextToken_none (h : c.On text) (hd : c.nextToken = (none, d)) :
    d.On text ∧ ∃ line, d.position.Splits text line [] := by
  obtain ⟨before, after, hsplits, hrest, -⟩ := h.place
  obtain ⟨-, hrest', hoffset⟩ := of_nextToken_none_of_rest hrest hd
  have hline := lineNumber_of_nextToken hd
  rw [← List.append_nil after] at hsplits
  have hsplits' := splits_append hsplits hline hoffset
  refine ⟨⟨?_, _, _, hsplits', hrest', Or.inr fun _ hc => by cases hc⟩, _, hsplits'⟩
  rw [pending_of_nextToken hd, hline]
  exact h.pending

/-- Behind a token without another one, there are only blanks up to the end of the line. -/
theorem Behind.of_nextToken_none (h : c.Behind text token) (hd : c.nextToken = (none, d)) :
    d.position.EndsLine text := by
  obtain ⟨before, after, hsplits, hrest, hdelimited⟩ := h.token
  obtain ⟨hblank, -, hoffset⟩ := of_nextToken_none_of_rest hrest hd
  have hline := lineNumber_of_nextToken hd
  rw [← List.append_nil after] at hsplits
  exact ⟨before, token.toList, after, splits_append hsplits hline hoffset, hdelimited, hblank⟩

/-! ### All steps -/

/-- The next line of a text is a place of it. -/
theorem on_of_advance (h : c.pending = ((linesOf text).drop c.lineNumber).map .text)
    (hd : c.advance = (true, d)) : d.On text := by
  rcases advance_cases c with ⟨-, heq⟩ | ⟨line, rest, hp, heq⟩ | ⟨reason, rest, -, heq⟩
  · cases heq.symm.trans hd
  · obtain rfl := (Prod.mk.inj (heq.symm.trans hd)).2
    rcases hlines : (linesOf text).drop c.lineNumber with _ | ⟨first, later⟩
    · rw [hlines, hp] at h
      cases h
    · rw [hlines, hp] at h
      obtain ⟨hfirst, hlater⟩ := List.cons.inj h
      obtain rfl : line = first := SourceLine.text.inj hfirst
      refine ⟨?_, [], line, ⟨Nat.le_add_left 1 _, ?_, rfl⟩, rfl, Or.inl fun _ hc => by cases hc⟩
      · have hdrop := congrArg List.tail hlines
        rw [List.tail_drop] at hdrop
        rw [hdrop]
        exact hlater
      · have hget := congrArg List.head? hlines
        rw [List.head?_drop] at hget
        exact hget
  · cases heq.symm.trans hd

theorem on_skipBlanks (h : c.On text) : c.skipBlanks.2.On text := by
  obtain ⟨before, after, hsplits, hrest, hclean⟩ := h.place
  have hplace : c.place.skipBlanks.2.rest = some (after.dropWhile isBlank) ∧
      c.place.skipBlanks.2.offset = c.offset + byteSize (blanksOf after) := by
    rw [LinePlace.skipBlanks_of_rest hrest]
    exact ⟨rfl, rfl⟩
  have happend : blanksOf after ++ after.dropWhile isBlank = after :=
    List.takeWhile_append_dropWhile
  rw [← happend] at hsplits
  refine ⟨h.pending, _, _, splits_append hsplits rfl hplace.2, hplace.1, ?_⟩
  rcases List.eq_nil_or_concat (blanksOf after) with hnil | ⟨blanks, b, hblanks⟩
  · -- no blanks, no change
    rw [hnil, List.nil_append] at happend
    rw [hnil, List.append_nil, happend]
    exact hclean
  · have hmem : b ∈ blanksOf after := by simp [hblanks]
    refine Or.inl fun ch hch => ?_
    rw [hblanks, List.concat_eq_append, ← List.append_assoc, List.getLast?_concat] at hch
    obtain rfl : b = ch := by simpa using hch
    exact isBlank_of_mem_blanksOf hmem

/-- **Every step leads from place to place.** -/
theorem on_of_step (h : Step c d) (hc : c.On text) : d.On text := by
  cases h with
  | token =>
    rcases hd : c.nextToken with ⟨_ | token, d⟩
    · exact (hc.of_nextToken_none hd).1
    · exact (hc.of_nextToken hd).1.toOn
  | blanks => exact on_skipBlanks hc
  | line =>
    rcases advance_cases c with ⟨-, heq⟩ | ⟨line, rest, -, heq⟩ | ⟨reason, rest, hp, -⟩
    · rw [heq]
      exact hc
    · have hd := on_of_advance hc.pending heq
      rwa [heq]
    · exact absurd hp (hc.pending_ne_failed reason rest)
  | note => exact ⟨hc.pending, hc.place⟩

/-- **All of reading leads from place to place.** -/
theorem Moves.on (h : c.Moves d) (hc : c.On text) : d.On text :=
  Moves.of_step (fun _ _ => on_of_step) h hc

/-- **Pulling a token** leads to its end, on whatever line that is. -/
theorem On.of_pull (h : c.On text) (hd : c.pull = (some token, d)) : d.Behind text token := by
  fun_induction pull c with
  | case1 c token' d' hd' =>
    obtain ⟨hsome, rfl⟩ := Prod.mk.inj hd
    obtain rfl := Option.some.inj hsome
    exact (h.of_nextToken hd').1
  | case2 c d' hd' e he ih =>
    exact ih (on_of_advance (h.of_nextToken_none hd').1.pending he) hd
  | case3 c d' hd' e he => cases hd

/-- **Finding no token on any line** leads to the end of the text. -/
theorem On.of_pull_none (h : c.On text) (hd : c.pull = (none, d)) :
    d.position.EndsText text := by
  fun_induction pull c with
  | case1 c token d' hd' => cases hd
  | case2 c d' hd' e he ih =>
    exact ih (on_of_advance (h.of_nextToken_none hd').1.pending he) hd
  | case3 c d' hd' e he =>
    obtain ⟨-, rfl⟩ := Prod.mk.inj hd
    obtain ⟨hon, line, hsplits⟩ := h.of_nextToken_none hd'
    rcases advance_cases d' with ⟨hp, heq⟩ | ⟨line, rest, -, heq⟩ | ⟨reason, rest, hp, -⟩
    · obtain rfl := (Prod.mk.inj (heq.symm.trans he)).2
      refine ⟨?_, line, hsplits⟩
      -- no line comes after this one, and this one is a line of the text
      have hle : (linesOf text).length ≤ d'.lineNumber := by
        have hpending := hon.pending
        rw [hp] at hpending
        exact List.drop_eq_nil_iff.mp (List.map_eq_nil_iff.mp hpending.symm)
      have hlt := (List.getElem?_eq_some_iff.mp hsplits.line).1
      have hpos := hsplits.pos
      change d'.lineNumber = _
      change d'.lineNumber - 1 < _ at hlt
      omega
    · cases heq.symm.trans he
    · exact absurd hp (hon.pending_ne_failed reason rest)

/-- **The first token of a text** leads to a place of it. -/
theorem behind_of_pull_ofText (h : (ofText text).pull = (some token, d)) :
    d.Behind text token := by
  have hnone : (ofText text).nextToken = (none, (ofText text).nextToken.2) :=
    nextToken_of_lineWords_nil rfl
  have hpending : (ofText text).nextToken.2.pending =
      ((linesOf text).drop (ofText text).nextToken.2.lineNumber).map .text :=
    ofText_eq_map_linesOf text
  generalize (ofText text).nextToken.2 = c at hnone hpending
  rcases hc : c.advance with ⟨_ | _, e⟩
  · cases (pull_of_advance_false hnone hc).symm.trans h
  · rw [pull_of_advance hnone hc] at h
    exact (on_of_advance hpending hc).of_pull h

end Cursor

end NnetText
