import Mathlib.Control.Monad.Basic
import NnetText.Proofs.Tracking

/-!
# Layout does not matter

Two texts with the same words on the same lines are read alike, however their blanks are
laid out (`Section.read_layout`). Lines matter and blanks do not, with one exception that
has to be argued away: a row of a matrix ends at a line feed *among the blanks* behind an
element, or at the end of the line, whichever comes first, and it is the layout that
decides between the two.

The comparison is `Cursor.SameWords`: the same words are left on the current line, and
the same words on the later lines that have any. It is lawful because a line of a text
has its line feed last (`Cursor.Orderly`). So a line feed met among the blanks is the end
of the line, where the row ends anyway; whether it has ended already or is still to be
ended makes no difference (`Bracketed.RowsFound.endRow_endRow`).
-/

namespace NnetText

namespace Cursor

/-! ### Orderly cursors -/

/-- **Line feeds stand at the end of their lines**, and all lines can be decoded. -/
structure Orderly (c : Cursor) : Prop where
  readable : c.Readable
  line : '\n' ∉ (c.place.rest.getD []).dropLast
  later : ∀ line, .text line ∈ c.pending → '\n' ∉ line.dropLast

theorem orderly_ofText (text : List Char) : (ofText text).Orderly where
  readable := readable_ofText text
  line := by
    change '\n' ∉ ([] : List Char).dropLast
    simp
  later := by
    intro line hline
    have hmem : line ∈ linesOf text := by
      simpa [ofText, ofText_eq_map_linesOf] using hline
    exact feed_not_mem_dropLast hmem

/-- What is left of a line has its line feed last if the line has. -/
theorem feed_not_mem_dropLast_of_suffix {line rest : List Char} (h : rest <:+ line)
    (hline : '\n' ∉ line.dropLast) : '\n' ∉ rest.dropLast := by
  obtain ⟨passed, rfl⟩ := h
  intro hmem
  have hne : rest ≠ [] := by
    rintro rfl
    simp at hmem
  rw [List.dropLast_append_of_ne_nil hne] at hline
  exact hline (List.mem_append_right _ hmem)

/-- **Line feeds stand at the end of their lines**, whether or not all lines can be decoded. -/
structure FeedsLast (c : Cursor) : Prop where
  line : '\n' ∉ (c.place.rest.getD []).dropLast
  later : ∀ line, .text line ∈ c.pending → '\n' ∉ line.dropLast

theorem Orderly.feedsLast {c : Cursor} (hc : c.Orderly) : c.FeedsLast := ⟨hc.line, hc.later⟩

theorem feedsLast_of_step {c d : Cursor} (h : Step c d) (hc : c.FeedsLast) : d.FeedsLast := by
  refine ⟨?_, ?_⟩
  · cases h with
    | token =>
      cases hrest : c.place.rest with
      | none =>
        have hplace : c.nextToken.2.place = c.place := by
          simp [nextToken, LinePlace.nextToken_of_rest_none hrest]
        rw [hplace]
        exact hc.line
      | some rest =>
        have hplace : c.nextToken.2.place.rest = _ := LinePlace.rest_nextToken hrest
        have hline := hc.line
        rw [hrest] at hline
        rw [hplace]
        -- behind a token stands an end of what was left
        exact feed_not_mem_dropLast_of_suffix
          ((List.dropWhile_suffix _).trans (List.dropWhile_suffix _)) hline
    | blanks =>
      have hline := hc.line
      change '\n' ∉ (c.place.skipBlanks.2.rest.getD []).dropLast
      cases hrest : c.place.rest with
      | none =>
        rw [LinePlace.skipBlanks_of_rest_none hrest]
        exact hline
      | some rest =>
        rw [hrest] at hline
        rw [LinePlace.skipBlanks_of_rest hrest]
        exact feed_not_mem_dropLast_of_suffix (List.dropWhile_suffix _) hline
    | line =>
      rcases advance_cases c with ⟨-, heq⟩ | ⟨line, rest, hp, heq⟩ | ⟨reason, rest, hp, heq⟩
      · rw [heq]
        exact hc.line
      · rw [heq]
        exact hc.later line (hp ▸ List.mem_cons_self)
      · rw [heq]
        exact hc.line
    | note n => exact hc.line
  · cases h with
    | token => exact hc.later
    | blanks => exact hc.later
    | note n => exact hc.later
    | line =>
      intro line hline
      refine hc.later line ?_
      rcases advance_cases c with ⟨-, heq⟩ | ⟨first, rest, hp, heq⟩ | ⟨reason, rest, hp, heq⟩
      · rwa [heq] at hline
      · rw [heq] at hline
        exact hp ▸ List.mem_cons_of_mem _ hline
      · rw [heq] at hline
        exact hp ▸ List.mem_cons_of_mem _ hline

theorem Moves.feedsLast {c d : Cursor} (h : c.Moves d) (hc : c.FeedsLast) : d.FeedsLast :=
  h.of_step (fun _ _ => feedsLast_of_step) hc

theorem orderly_of_step {c d : Cursor} (h : Step c d) (hc : c.Orderly) : d.Orderly := by
  obtain ⟨hline, hlater⟩ := feedsLast_of_step h hc.feedsLast
  exact ⟨readable_of_step h hc.readable, hline, hlater⟩

theorem Moves.orderly {c d : Cursor} (h : c.Moves d) (hc : c.Orderly) : d.Orderly :=
  h.of_step (fun _ _ => orderly_of_step) hc

/-- **A line feed among the blanks is the end of the line**: no word follows it there. -/
theorem FeedsLast.lineWords_of_skipBlanks {c : Cursor} (hc : c.FeedsLast)
    (h : c.skipBlanks.1 = true) : c.lineWords = [] := by
  cases hrest : c.place.rest with
  | none => simp [lineWords, hrest]
  | some rest =>
    have hline := hc.line
    have hfeed : '\n' ∈ LinePlace.blanksOf rest := by
      change c.place.skipBlanks.1 = true at h
      rw [LinePlace.skipBlanks_of_rest hrest] at h
      simpa using h
    rw [hrest, Option.getD_some] at hline
    -- if anything stood behind the blanks, the line feed among them would not be last
    have hnil : rest.dropWhile isBlank = [] := by
      by_contra hne
      rw [← List.takeWhile_append_dropWhile (p := isBlank) (l := rest),
        List.dropLast_append_of_ne_nil hne] at hline
      exact hline (List.mem_append_left _ hfeed)
    rw [lineWords, hrest, Option.getD_some,
      ← List.takeWhile_append_dropWhile (p := isBlank) (l := rest), hnil, List.append_nil]
    exact words_blanks fun _ hb => isBlank_of_mem_blanksOf hb

/-! ### Words, line by line -/

/-- The words of the later lines, as far as they have any. -/
def laterWords (c : Cursor) : List (List String) :=
  (c.pending.map SourceLine.words).filter (fun line => !line.isEmpty)

theorem laterWords_ofText (text : List Char) : (ofText text).laterWords = wordLines text := by
  have hpending : (ofText text).pending.map SourceLine.words = (linesOf text).map words := by
    simp only [ofText, ofText_eq_map_linesOf, List.map_map]
    rfl
  rw [laterWords, hpending, wordLines_eq_linesOf]

/-- **The same words on the same lines** are left to read. -/
structure SameWords (c d : Cursor) : Prop where
  line : c.lineWords = d.lineWords
  later : c.laterWords = d.laterWords
  left : c.Orderly
  right : d.Orderly

/-- Asking for a line takes it off the later ones, or passes over one without words. -/
theorem laterWords_of_advance {c d : Cursor} (h : c.advance = (true, d)) :
    d.lineWords = [] ∧ d.laterWords = c.laterWords ∨
      d.lineWords ≠ [] ∧ c.laterWords = d.lineWords :: d.laterWords := by
  rcases advance_cases c with ⟨-, heq⟩ | ⟨line, rest, hp, heq⟩ | ⟨reason, rest, hp, heq⟩
  · simp [heq] at h
  · obtain rfl := (Prod.mk.inj (heq.symm.trans h)).2
    by_cases hline : words line = []
    · exact Or.inl ⟨hline, by simp [laterWords, hp, SourceLine.words, hline]⟩
    · refine Or.inr ⟨hline, ?_⟩
      simp [laterWords, hp, SourceLine.words, hline, lineWords, LinePlace.start]
  · simp [heq] at h

/-- Without another line there are no later words. -/
theorem laterWords_of_advance_false {c d : Cursor} (hc : c.Readable)
    (h : c.advance = (false, d)) : c.laterWords = [] := by
  rcases advance_cases c with ⟨hp, heq⟩ | ⟨line, rest, hp, heq⟩ | ⟨reason, rest, hp, heq⟩
  · simp [laterWords, hp]
  · simp [heq] at h
  · exact absurd (hp ▸ List.mem_cons_self) (hc reason)

theorem laterWords_of_nextToken {c d : Cursor} {token : Option String}
    (h : c.nextToken = (token, d)) : d.laterWords = c.laterWords := by
  rw [laterWords, laterWords, pending_of_nextToken h]

/-- The next word of the line, or of the first later line: the word, what is left of its
line, and the lines behind. -/
def nextWord : List String → List (List String) →
    Option (String × List String × List (List String))
  | word :: line, later => some (word, line, later)
  | [], (word :: line) :: later => some (word, line, later)
  | [], _ => none

/-- **The token pulled is the next word.** -/
theorem nextWord_of_pull {c d : Cursor} {token : String} (h : c.pull = (some token, d)) :
    nextWord c.lineWords c.laterWords = some (token, d.lineWords, d.laterWords) := by
  fun_induction pull c with
  | case1 c token' d' hd =>
    cases h
    rw [lineWords_of_nextToken hd, laterWords_of_nextToken hd, nextWord]
  | case2 c d' hd e he ih =>
    rw [(lineWords_eq_nil_of_nextToken hd).1, ← laterWords_of_nextToken hd, ← ih h]
    rcases laterWords_of_advance he with ⟨hline, hlater⟩ | ⟨hline, hlater⟩
    · rw [hline, hlater]
    · obtain ⟨word, line, heq⟩ := List.exists_cons_of_ne_nil hline
      rw [hlater, heq, nextWord, nextWord]
  | case3 c d' hd e he => simp at h

theorem nextWord_of_pull_none {c d : Cursor} (hc : c.Readable) (h : c.pull = (none, d)) :
    nextWord c.lineWords c.laterWords = none := by
  obtain ⟨hwords, -⟩ := unreadWords_of_pull_none hc h
  obtain ⟨hline, hlater⟩ := List.append_eq_nil_iff.mp hwords
  have hnil : c.laterWords = [] := by
    refine List.filter_eq_nil_iff.mpr fun line hmem => ?_
    simp [List.flatten_eq_nil_iff.mp hlater line hmem]
  rw [hline, hnil]
  rfl

end Cursor

/-! ### The comparison -/

/-- The comparison by words, which is blind to places. -/
def Comparison.layout : Comparison where
  rel := Cursor.SameWords
  ended := fun _ _ => True
  left := fun _ => default
  right := fun _ => default
  cut := False

namespace Cursor.SameWords

variable {c d : Cursor}

theorem nextToken {c' : Cursor} {token : Option String} (h : c.SameWords d)
    (hc : c.nextToken = (token, c')) : ∃ d', d.nextToken = (token, d') ∧ c'.SameWords d' := by
  have htoken : c.nextToken.1 = d.nextToken.1 := by rw [fst_nextToken, fst_nextToken, h.line]
  have hwords : c.nextToken.2.SameWords d.nextToken.2 := by
    refine ⟨?_, h.later, c.moves_nextToken.orderly h.left, d.moves_nextToken.orderly h.right⟩
    rw [lineWords_nextToken, lineWords_nextToken, h.line]
  rw [hc] at htoken hwords
  exact ⟨d.nextToken.2, Prod.ext htoken.symm rfl, hwords⟩

theorem skipBlanks (h : c.SameWords d) : c.skipBlanks.2.SameWords d.skipBlanks.2 := by
  refine ⟨?_, h.later, c.moves_skipBlanks.orderly h.left, d.moves_skipBlanks.orderly h.right⟩
  rw [lineWords_skipBlanks, lineWords_skipBlanks, h.line]

theorem pull (h : c.SameWords d) : Comparison.layout.Pulls c.pull d.pull := by
  rcases hc : c.pull with ⟨_ | token, c'⟩ <;> rcases hd : d.pull with ⟨_ | token', d'⟩
  · exact .none trivial
  · have hnext := nextWord_of_pull hd
    rw [← h.line, ← h.later, nextWord_of_pull_none h.left.readable hc] at hnext
    cases hnext
  · have hnext := nextWord_of_pull hc
    rw [h.line, h.later, nextWord_of_pull_none h.right.readable hd] at hnext
    cases hnext
  · have hnext := nextWord_of_pull hc
    rw [h.line, h.later, nextWord_of_pull hd] at hnext
    obtain ⟨rfl, hline, hlater⟩ : token' = token ∧ d'.lineWords = c'.lineWords ∧
        d'.laterWords = c'.laterWords := by simpa using hnext
    exact .token ⟨hline.symm, hlater.symm, (moves_of_pull hc).orderly h.left,
      (moves_of_pull hd).orderly h.right⟩

end Cursor.SameWords

/-! ### Rows -/

namespace Bracketed

/-- **A row is ended once.** -/
theorem RowsFound.endRow_endRow (r : RowsFound) : r.endRow.endRow = r.endRow := by
  unfold endRow
  by_cases h : r.current.isEmpty <;> simp [h]

theorem elementToken_of_lineWords_nil {c : Cursor} (h : c.lineWords = []) :
    elementToken c = (none, c.nextToken.2) := by
  rw [elementToken, Cursor.nextToken_of_lineWords_nil h]

theorem lineWords_ne_nil_of_elementToken {c d : Cursor} {token : String}
    (h : elementToken c = (some token, d)) : c.lineWords ≠ [] := by
  intro hnil
  rw [elementToken_of_lineWords_nil hnil] at h
  cases h

theorem laterWords_of_elementToken {c d : Cursor} {token : Option String}
    (h : elementToken c = (token, d)) : d.laterWords = c.laterWords := by
  unfold elementToken at h
  split at h
  · rename_i e he
    rw [Cursor.laterWords_of_nextToken h, Cursor.laterWords_of_nextToken he]
  · exact Cursor.laterWords_of_nextToken h

/-- **From the end of a line, the rows go on at the next line that has a word**, with the
current row ended. Lines without a word in between change nothing. -/
theorem rows_of_line_end (limit : Nat) (start : Position) (found : RowsFound) {c d : Cursor}
    (hc : c.Orderly) (h : elementToken c = (none, d)) :
    (c.laterWords = [] ∧
      ∃ e, rows limit start found c = (.error (.unterminatedMatrix start), e)) ∨
    ∃ e : Cursor, e.Orderly ∧ c.laterWords = e.lineWords :: e.laterWords ∧
      e.remaining < c.remaining ∧ rows limit start found c = rows limit start found.endRow e := by
  induction hn : c.remaining using Nat.strongRecOn generalizing c d found with
  | _ n ih =>
    have hd : d.Orderly := ((moves_elementToken c).of_eq h).orderly hc
    have hle : d.remaining ≤ c.remaining := by
      have hle := remaining_elementToken_le c
      rwa [h] at hle
    rw [← laterWords_of_elementToken h]
    rcases he : d.advance with ⟨_ | _, e⟩
    · refine Or.inl ⟨Cursor.laterWords_of_advance_false hd.readable he, e, ?_⟩
      simp only [rows_eq _ _ _ c, h, he]
    · have hrows : rows limit start found c = rows limit start found.endRow e := by
        simp only [rows_eq _ _ _ c, h, he]
      rw [hrows]
      have hlt := Cursor.remaining_advance_lt he
      have horderly : e.Orderly := (d.moves_advance.of_eq he).orderly hd
      rcases Cursor.laterWords_of_advance he with ⟨hline, hlater⟩ | ⟨hline, hlater⟩
      · -- a line without a word: the row has been ended, and ending it again is idle
        have he' := elementToken_of_lineWords_nil hline
        rw [← hlater]
        rcases ih e.remaining (by omega) found.endRow horderly he' rfl with hend | hnext
        · exact Or.inl hend
        · obtain ⟨f, hf, hwords, hltf, hrows'⟩ := hnext
          rw [RowsFound.endRow_endRow] at hrows'
          exact Or.inr ⟨f, hf, hwords, by omega, hrows'⟩
      · exact Or.inr ⟨e, horderly, hlater, by omega, rfl⟩

end Bracketed

namespace Comparison

theorem stepwise_layout : layout.Stepwise where
  ended_of_rel := fun _ => trivial
  note := fun _ _ h => ⟨h.line, h.later, (Cursor.moves_note _ _).orderly h.left,
    (Cursor.moves_note _ _).orderly h.right⟩
  place := fun _ => rfl
  nextToken := fun h hc => h.nextToken hc
  pull := fun h => h.pull

/-- **Rows are the same whatever the layout.** The rows found may differ in whether the
current one has been ended, as long as nothing is left on the line to go into it. -/
theorem follows_rows_layout (limit : Nat) (start start' : Position)
    {found found' : Bracketed.RowsFound} {c d : Cursor} (h : c.SameWords d)
    (hend : found.endRow = found'.endRow) (hfound : c.lineWords ≠ [] → found = found') :
    layout.Follows Eq (Bracketed.rows limit start found c)
      (Bracketed.rows limit start' found' d) := by
  induction hn : c.remaining using Nat.strongRecOn generalizing c d found found' with
  | _ n ih =>
    rcases hc : Bracketed.elementToken c with ⟨token, c'⟩
    obtain ⟨d', hd, hrel⟩ := stepwise_layout.elementToken h hc
    cases token with
    | none =>
      rcases Bracketed.rows_of_line_end limit start found h.left hc with
        ⟨hnil, e, hrows⟩ | ⟨e, he, hwords, hlt, hrows⟩ <;>
      rcases Bracketed.rows_of_line_end limit start' found' h.right hd with
        ⟨hnil', e', hrows'⟩ | ⟨e', he', hwords', -, hrows'⟩
      -- with the same words to come, both come to a line with words or neither does
      · rw [hrows, hrows']
        exact .error rfl trivial
      · rw [← h.later, hnil] at hwords'
        cases hwords'
      · rw [h.later, hnil'] at hwords
        cases hwords
      · rw [h.later, hwords'] at hwords
        obtain ⟨hline, hlater⟩ := List.cons.inj hwords
        rw [hrows, hrows', hend]
        exact ih _ (hn ▸ hlt) ⟨hline.symm, hlater.symm, he, he'⟩ rfl (fun _ => rfl) rfl
    | some token =>
      obtain rfl := hfound (Bracketed.lineWords_ne_nil_of_elementToken hc)
      simp only [Bracketed.rows_eq _ _ _ c, Bracketed.rows_eq _ _ _ d, hc, hd]
      split
      · exact follows_of_mapError (finish_mapError found rfl) hrel trivial
      · split
        · exact .error rfl trivial
        · cases hx : Scalar.float .single token c'.position with
          | error e =>
            obtain ⟨e', he', heq⟩ :=
              (judges_float (K := layout) .single).error (q := d'.position) hx rfl
            rw [he']
            exact .error heq trivial
          | ok x =>
            have hx' := (judges_float (K := layout) .single).ok (q := d'.position) hx rfl
            rw [hx']
            have hlt : c'.skipBlanks.2.remaining < n :=
              Nat.lt_of_le_of_lt c'.remaining_skipBlanks_le
                (hn ▸ Bracketed.remaining_elementToken_lt hc)
            -- a line feed is seen on one side only if no word is left on the line
            have hfeed : c'.skipBlanks.2.lineWords ≠ [] →
                c'.skipBlanks.1 = false ∧ d'.skipBlanks.1 = false := by
              intro hne
              rw [Cursor.lineWords_skipBlanks] at hne
              refine ⟨?_, ?_⟩ <;> by_contra hfeed <;> rw [Bool.not_eq_false] at hfeed
              · exact hne (hrel.left.feedsLast.lineWords_of_skipBlanks hfeed)
              · exact hne (hrel.line ▸ hrel.right.feedsLast.lineWords_of_skipBlanks hfeed)
            refine ih _ hlt hrel.skipBlanks ?_ (fun hne => ?_) rfl
            · cases c'.skipBlanks.1 <;> cases d'.skipBlanks.1 <;>
                simp [Bracketed.RowsFound.endRow_endRow]
            · obtain ⟨hleft, hright⟩ := hfeed hne
              rw [hleft, hright]

theorem lawful_layout : layout.Lawful where
  toStepwise := stepwise_layout
  rows := fun limit h _ => follows_rows_layout limit _ _ h rfl (fun _ => rfl)

end Comparison

/-! ### Texts -/

namespace Section

/-- **Two texts are read alike**: both have the same components, or both are given up with
the same error, at whatever places. -/
def ReadAlike (limits : Limits) (a b : List Char) : Prop :=
  (∃ components, (read limits (.ofText a)).1 = .ok components ∧
    (read limits (.ofText b)).1 = .ok components) ∨
  ∃ e e', (read limits (.ofText a)).1 = .error e ∧ (read limits (.ofText b)).1 = .error e' ∧
    e.mapPlace (fun _ => default) = e'.mapPlace (fun _ => default)

theorem readAlike_of_wordLines (limits : Limits) {a b : List Char}
    (h : wordLines a = wordLines b) : ReadAlike limits a b := by
  have hwords : (Cursor.ofText a).SameWords (.ofText b) := by
    refine ⟨rfl, ?_, Cursor.orderly_ofText a, Cursor.orderly_ofText b⟩
    rw [Cursor.laterWords_ofText, Cursor.laterWords_ofText, h]
  have htracks : Comparison.layout.Tracks limits [] (.start (.ofText a)) (.start (.ofText b)) :=
    ⟨rfl, rfl, hwords, Nat.zero_le _⟩
  have hends : Comparison.layout.Ends limits [] (ending limits a) (ending limits b) :=
    htracks.run Comparison.lawful_layout
  rcases hends.reads with hok | herror | ⟨hcut, -⟩
  · exact Or.inl hok
  · exact Or.inr herror
  · exact hcut.elim

/-- **Layout does not matter.** Texts with the same words on the same lines are read alike.
In particular nothing hangs on carriage returns in front of line feeds, on blanks and
blank lines in front of a line, on which blanks stand between two words of a line, or on a
line feed behind the last line. -/
theorem read_layout (limits : Limits) :
    (∀ a b, wordLines a = wordLines b → ReadAlike limits a b) ∧
    (∀ text, ReadAlike limits (withReturns text) text) ∧
    (∀ before blanks behind, before = [] ∨ before.getLast? = some '\n' →
      (∀ b ∈ blanks, isBlank b = true) →
        ReadAlike limits (before ++ blanks ++ behind) (before ++ behind)) ∧
    (∀ before blanks blanks' behind, blanks ≠ [] → blanks' ≠ [] →
      (∀ b ∈ blanks, isBlank b = true ∧ b ≠ '\n') →
      (∀ b ∈ blanks', isBlank b = true ∧ b ≠ '\n') →
        ReadAlike limits (before ++ blanks ++ behind) (before ++ blanks' ++ behind)) ∧
    ∀ text, ReadAlike limits (text ++ ['\n']) text := by
  refine ⟨fun a b h => readAlike_of_wordLines limits h, fun text => ?_,
    fun before blanks behind hbefore hblanks => ?_,
    fun before blanks blanks' behind hne hne' hblanks hblanks' => ?_, fun text => ?_⟩
  · exact readAlike_of_wordLines limits (wordLines_withReturns text)
  · exact readAlike_of_wordLines limits (wordLines_blanks_at_line hbefore hblanks behind)
  · exact readAlike_of_wordLines limits
      (wordLines_exchange hne hne' hblanks hblanks' before behind)
  · exact readAlike_of_wordLines limits (wordLines_append_feed_nil text)

/-- A matrix with a row to a line. -/
def plainMatrix : List Char :=
  "<ComponentName> a <LinearComponent> <Params> [\n1 2\n3 4 ]\n</LinearComponent>\n".toList

/-- The same matrix with carriage returns, blank lines, a tab and without a line feed at
the end. -/
def spacedMatrix : List Char :=
  "\r\n <ComponentName>\ta <LinearComponent>  <Params> [\r\n\r\n  1\t2 \r\n".toList ++
    "3 4 ] \n \n</LinearComponent>".toList

theorem read_layout_spacedMatrix :
    wordLines plainMatrix = wordLines spacedMatrix ∧ plainMatrix ≠ spacedMatrix ∧
      ReadAlike .standard plainMatrix spacedMatrix := by
  have hwords : wordLines plainMatrix = wordLines spacedMatrix := by decide +kernel
  exact ⟨hwords, by decide +kernel, (read_layout .standard).1 _ _ hwords⟩

end Section

end NnetText
