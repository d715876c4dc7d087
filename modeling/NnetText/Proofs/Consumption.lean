import NnetText.Proofs.Identity
import NnetText.Proofs.Movement
import NnetText.Proofs.Words

/-!
# Reading takes words off the front

A cursor stands between what has been read and what has not. `Cursor.unreadWords` is
the latter as a list of words: those left on the current line, then those of the lines
still to come. Every step of every reader takes some of them off the front, and this
file says which.

The step lemma is `Cursor.unreadWords_of_pull`: pulling a token takes exactly the first
unread word. The readers follow by induction along their loops. What matters about them
is what they do *not* take: a literal that is read without a fault holds no opener,
since an opener is neither a bracket nor a number
(`Literal.exists_unreadWords_of_read`), so that an opener inside the body of a
declaration always ends it (`Component.exists_unreadWords_of_collect`).
-/

namespace NnetText

namespace SourceLine

/-- The words of a line; a line that cannot be read has none. -/
def words : SourceLine → List String
  | text line => NnetText.words line
  | failed _ => []

end SourceLine

namespace Cursor

/-! ### What is left to read -/

/-- The words left on the current line. -/
def lineWords (c : Cursor) : List String := words (c.place.rest.getD [])

/-- **The words left to read**: those of the current line, then those of the lines
still to come. -/
def unreadWords (c : Cursor) : List String :=
  c.lineWords ++ (c.pending.map SourceLine.words).flatten

@[simp] theorem unreadWords_note (c : Cursor) (n : Notice) :
    (c.note n).unreadWords = c.unreadWords := rfl

theorem unreadWords_ofText (text : List Char) : (ofText text).unreadWords = words text := by
  have hpending : (ofText text).pending.map SourceLine.words = (linesOf text).map words := by
    simp only [ofText, ofText_eq_map_linesOf, List.map_map]
    rfl
  have hline : (ofText text).lineWords = [] := words_nil
  rw [unreadWords, hpending, hline, List.nil_append, flatten_map_words_linesOf]

/-! ### Steps of the cursor -/

/-- **A token is the first word left on the line.** -/
theorem fst_nextToken (c : Cursor) : c.nextToken.1 = c.lineWords.head? := by
  cases h : c.place.rest with
  | none => simp [nextToken, LinePlace.nextToken_of_rest_none h, lineWords, h]
  | some rest =>
    have hfst : c.nextToken.1 = _ := LinePlace.fst_nextToken h
    rw [hfst, lineWords, h, Option.getD_some]
    by_cases htoken : LinePlace.tokenOf rest = []
    · simp [htoken, words_eq_nil_of_tokenOf htoken]
    · simp [htoken, words_eq_cons_tokenOf htoken]

/-- What is left on the line behind a token are the other words. -/
theorem lineWords_nextToken (c : Cursor) : c.nextToken.2.lineWords = c.lineWords.tail := by
  cases h : c.place.rest with
  | none => simp [nextToken, LinePlace.nextToken_of_rest_none h, lineWords, h]
  | some rest =>
    have hrest : c.nextToken.2.place.rest = _ := LinePlace.rest_nextToken h
    rw [lineWords, lineWords, hrest, h, Option.getD_some, Option.getD_some]
    by_cases htoken : LinePlace.tokenOf rest = []
    · have hbehind : words (LinePlace.behindToken rest) = [] := by
        have hblank := words_eq_nil_of_tokenOf htoken
        rw [← LinePlace.blanksOf_tokenOf_behindToken rest, htoken, List.append_nil,
          words_blanks_append (fun _ hb => isBlank_of_mem_blanksOf hb)] at hblank
        exact hblank
      rw [hbehind, words_eq_nil_of_tokenOf htoken, List.tail_nil]
    · rw [words_eq_cons_tokenOf htoken, List.tail_cons]

theorem lineWords_of_nextToken {c d : Cursor} {token : String}
    (h : c.nextToken = (some token, d)) : c.lineWords = token :: d.lineWords := by
  have hfst := c.fst_nextToken
  have htail := c.lineWords_nextToken
  rw [h] at hfst htail
  cases hw : c.lineWords with
  | nil => simp [hw] at hfst
  | cons w ws => simp_all

theorem lineWords_eq_nil_of_nextToken {c d : Cursor} (h : c.nextToken = (none, d)) :
    c.lineWords = [] ∧ d.lineWords = [] := by
  have hfst := c.fst_nextToken
  have htail := c.lineWords_nextToken
  rw [h] at hfst htail
  have hnil : c.lineWords = [] := List.head?_eq_none_iff.mp hfst.symm
  exact ⟨hnil, by simpa [hnil] using htail⟩

theorem nextToken_of_lineWords_nil {c : Cursor} (h : c.lineWords = []) :
    c.nextToken = (none, c.nextToken.2) := by
  refine Prod.ext ?_ rfl
  rw [fst_nextToken, h, List.head?_nil]

theorem pending_of_nextToken {c d : Cursor} {token : Option String}
    (h : c.nextToken = (token, d)) : d.pending = c.pending := by
  have hpending := pending_nextToken c
  rwa [h] at hpending

theorem unreadWords_of_nextToken {c d : Cursor} {token : String}
    (h : c.nextToken = (some token, d)) : c.unreadWords = token :: d.unreadWords := by
  rw [unreadWords, unreadWords, lineWords_of_nextToken h, pending_of_nextToken h,
    List.cons_append]

theorem unreadWords_of_nextToken_none {c d : Cursor} (h : c.nextToken = (none, d)) :
    c.unreadWords = d.unreadWords := by
  obtain ⟨hc, hd⟩ := lineWords_eq_nil_of_nextToken h
  rw [unreadWords, unreadWords, hc, hd, pending_of_nextToken h]

/-- Passing over blanks passes over no word. -/
theorem lineWords_skipBlanks (c : Cursor) : c.skipBlanks.2.lineWords = c.lineWords := by
  change words ((c.place.skipBlanks.2).rest.getD []) = words (c.place.rest.getD [])
  cases h : c.place.rest with
  | none => rw [LinePlace.skipBlanks_of_rest_none h, h]
  | some rest =>
    simp only [LinePlace.skipBlanks_of_rest h, LinePlace.skip, Option.getD_some]
    conv_rhs => rw [← List.takeWhile_append_dropWhile (p := isBlank) (l := rest)]
    exact (words_blanks_append (fun _ hb => isBlank_of_mem_blanksOf hb) _).symm

theorem unreadWords_skipBlanks (c : Cursor) : c.skipBlanks.2.unreadWords = c.unreadWords := by
  have hpending : c.skipBlanks.2.pending = c.pending := rfl
  rw [unreadWords, unreadWords, lineWords_skipBlanks, hpending]

theorem advance_of_nil {c : Cursor} (h : c.pending = []) : c.advance = (false, c) := by
  simp [advance, h]

theorem advance_of_text {c : Cursor} {line : List Char} {rest : List SourceLine}
    (h : c.pending = .text line :: rest) : c.advance =
      (true, { c with
        pending := rest, place := .start line, lineNumber := c.lineNumber + 1 }) := by
  simp [advance, h]

theorem advance_of_failed {c : Cursor} {reason : String} {rest : List SourceLine}
    (h : c.pending = .failed reason :: rest) : c.advance =
      (false, { c with
        pending := rest, failure := some reason }.note (.unreadableLine reason)) := by
  simp [advance, h]

/-- The three things that asking for a line can lead to. -/
theorem advance_cases (c : Cursor) :
    (c.pending = [] ∧ c.advance = (false, c)) ∨
    (∃ line rest, c.pending = .text line :: rest ∧ c.advance =
      (true, { c with
        pending := rest, place := .start line, lineNumber := c.lineNumber + 1 })) ∨
    (∃ reason rest, c.pending = .failed reason :: rest ∧ c.advance =
      (false, { c with
        pending := rest, failure := some reason }.note (.unreadableLine reason))) := by
  rcases h : c.pending with _ | ⟨line | reason, rest⟩
  · exact Or.inl ⟨rfl, advance_of_nil h⟩
  · exact Or.inr (Or.inl ⟨line, rest, rfl, advance_of_text h⟩)
  · exact Or.inr (Or.inr ⟨reason, rest, rfl, advance_of_failed h⟩)

/-- At the end of a line, asking for the next one loses no word. -/
theorem unreadWords_advance {c : Cursor} (h : c.lineWords = []) :
    c.advance.2.unreadWords = c.unreadWords := by
  rcases advance_cases c with ⟨-, heq⟩ | ⟨line, rest, hp, heq⟩ | ⟨reason, rest, hp, heq⟩
  · rw [heq]
  · rw [heq, unreadWords, unreadWords, h, hp]
    rfl
  · rw [heq, unreadWords_note, unreadWords, unreadWords, h, hp]
    exact congrArg (· ++ _) h

theorem pull_of_nextToken {c d : Cursor} {token : String} (h : c.nextToken = (some token, d)) :
    c.pull = (some token, d) := by
  rw [pull]
  split <;> simp_all

/-- At the end of a line, the token comes from the next one. -/
theorem pull_of_advance {c d e : Cursor} (h : c.nextToken = (none, d))
    (he : d.advance = (true, e)) : c.pull = e.pull := by
  rw [pull]
  split
  · simp_all
  · split <;> simp_all

theorem pull_of_advance_false {c d e : Cursor} (h : c.nextToken = (none, d))
    (he : d.advance = (false, e)) : c.pull = (none, e) := by
  rw [pull]
  split
  · simp_all
  · split <;> simp_all

/-- **Pulling a token takes the first unread word.** -/
theorem unreadWords_of_pull {c d : Cursor} {token : String} (h : c.pull = (some token, d)) :
    c.unreadWords = token :: d.unreadWords := by
  fun_induction pull c with
  | case1 c token' d' hd =>
    cases h
    exact unreadWords_of_nextToken hd
  | case2 c d' hd e he ih =>
    have hadvance := unreadWords_advance (lineWords_eq_nil_of_nextToken hd).2
    rw [he] at hadvance
    rw [unreadWords_of_nextToken_none hd, ← hadvance, ih h]
  | case3 c d' hd e he => simp at h

/-! ### Input without a line that fails -/

/-- All lines still to come can be read. -/
def Readable (c : Cursor) : Prop := ∀ reason, SourceLine.failed reason ∉ c.pending

theorem readable_ofText (text : List Char) : (ofText text).Readable := by
  simp [Readable, ofText, SourceLine.ofText]

theorem readable_of_step {c d : Cursor} (h : Step c d) (hc : c.Readable) : d.Readable := by
  cases h with
  | token => exact hc
  | blanks => exact hc
  | note n => exact hc
  | line =>
    rcases advance_cases c with ⟨-, heq⟩ | ⟨line, rest, hp, heq⟩ | ⟨reason, rest, hp, heq⟩
    · rwa [heq]
    · rw [heq]
      exact fun reason hmem => hc reason (hp ▸ List.mem_cons_of_mem _ hmem)
    · exact absurd (hp ▸ List.mem_cons_self) (hc reason)

theorem Moves.readable {c d : Cursor} (h : c.Moves d) (hc : c.Readable) : d.Readable :=
  h.of_step (fun _ _ => readable_of_step) hc

/-- **Where every line can be read, tokens run out only when the words do.** -/
theorem unreadWords_of_pull_none {c d : Cursor} (hc : c.Readable) (h : c.pull = (none, d)) :
    c.unreadWords = [] ∧ d.unreadWords = [] := by
  fun_induction pull c with
  | case1 c token d' hd => simp at h
  | case2 c d' hd e he ih =>
    have hmoves := moves_of_advance hd he
    have hadvance := unreadWords_advance (lineWords_eq_nil_of_nextToken hd).2
    rw [he] at hadvance
    obtain ⟨hcw, hdw⟩ := ih (hmoves.readable hc) h
    exact ⟨by rw [unreadWords_of_nextToken_none hd, ← hadvance, hcw], hdw⟩
  | case3 c d' hd e he =>
    obtain rfl : e = d := congrArg Prod.snd h
    have hpending := pending_of_nextToken hd
    rw [unreadWords_of_nextToken_none hd]
    rcases advance_cases d' with ⟨hp, heq⟩ | ⟨line, rest, hp, heq⟩ | ⟨reason, rest, hp, heq⟩
    · obtain rfl : d' = e := by simpa [heq] using he
      have hnil : d'.unreadWords = [] := by
        simp [unreadWords, (lineWords_eq_nil_of_nextToken hd).2, hp]
      exact ⟨hnil, hnil⟩
    · simp [heq] at he
    · exact absurd (hpending ▸ hp ▸ List.mem_cons_self) (hc reason)

end Cursor

/-! ### Literals

A literal takes the words it is made of. None of them can be an opener: a scalar and the
elements of a bracketed literal are judged, and no judge passes an opener. -/

/-- A judge that passes no opener. -/
def RefusesOpener {α : Type} (judge : String → Position → Except ParseError α) : Prop :=
  ∀ place x, judge Tag.opener place ≠ .ok x

namespace Scalar

theorem refusesOpener_bool : RefusesOpener bool := by
  intro place x h
  cases h

theorem refusesOpener_integer : RefusesOpener integer := by
  intro place x h
  cases h

theorem refusesOpener_float (f : Format) : RefusesOpener (float f) := by
  intro place x h
  cases h

/-- A scalar is one word. -/
theorem unreadWords_of_read {α : Type} {expected : Expected}
    {judge : String → Position → Except ParseError α} {c d : Cursor} {x : α}
    (h : read expected judge c = (.ok x, d)) :
    ∃ token, c.unreadWords = token :: d.unreadWords ∧ judge token d.position = .ok x := by
  unfold read at h
  split at h
  · simp at h
  · rename_i token e he
    obtain ⟨hx, rfl⟩ := Prod.mk.inj h
    exact ⟨token, Cursor.unreadWords_of_nextToken he, hx⟩

end Scalar

namespace Bracketed

theorem unreadWords_of_openBracket {c d : Cursor} {start : Position}
    (h : openBracket c = (.ok start, d)) : c.unreadWords = "[" :: d.unreadWords := by
  unfold openBracket at h
  split at h
  · rename_i e he
    obtain ⟨-, rfl⟩ := Prod.mk.inj h
    exact Cursor.unreadWords_of_nextToken he
  · simp at h

/-- **The elements of a vector** are the words up to the first closing bracket, and each
of them has been passed by the judge. -/
theorem exists_unreadWords_of_elements {α : Type} {limit : Nat}
    {judge : String → Position → Except ParseError α} {start : Position} {found : List α}
    {c d : Cursor} {xs : List α} (h : elements limit judge start found c = (.ok xs, d)) :
    ∃ tokens, c.unreadWords = tokens ++ "]" :: d.unreadWords ∧
      ∀ token ∈ tokens, token ≠ "]" ∧ ∃ place x, judge token place = .ok x := by
  fun_induction elements limit judge start found c with
  | case1 found c e hpull => simp at h
  | case2 found c e hpull =>
    obtain ⟨-, rfl⟩ := Prod.mk.inj h
    exact ⟨[], Cursor.unreadWords_of_pull hpull, by simp⟩
  | case3 found c token e hpull hne hlimit => simp at h
  | case4 found c token e hpull hne hlimit fault hfault => simp at h
  | case5 found c token e hpull hne hlimit x hx ih =>
    obtain ⟨tokens, hwords, hall⟩ := ih h
    refine ⟨token :: tokens, ?_, ?_⟩
    · rw [Cursor.unreadWords_of_pull hpull, hwords, List.cons_append]
    · intro t ht
      rcases List.mem_cons.mp ht with rfl | ht
      · exact ⟨hne, _, x, hx⟩
      · exact hall t ht

theorem exists_unreadWords_of_vector {α : Type} {limits : Limits}
    {judge : String → Position → Except ParseError α} {c d : Cursor} {xs : List α}
    (h : vector limits judge c = (.ok xs, d)) :
    ∃ tokens, c.unreadWords = "[" :: tokens ++ "]" :: d.unreadWords ∧
      ∀ token ∈ tokens, token ≠ "]" ∧ ∃ place x, judge token place = .ok x := by
  unfold vector at h
  split at h
  · simp at h
  · rename_i start e he
    obtain ⟨tokens, hwords, hall⟩ := exists_unreadWords_of_elements h
    refine ⟨tokens, ?_, hall⟩
    rw [unreadWords_of_openBracket he, hwords, List.cons_append]

/-- A token of a matrix is the first word left on the line, or the second behind an
opening bracket. -/
theorem exists_unreadWords_of_elementToken {c d : Cursor} {token : String}
    (h : elementToken c = (some token, d)) :
    ∃ opening, c.unreadWords = opening ++ token :: d.unreadWords ∧ ∀ t ∈ opening, t = "[" := by
  unfold elementToken at h
  split at h
  · rename_i e he
    refine ⟨["["], ?_, by simp⟩
    rw [Cursor.unreadWords_of_nextToken he, Cursor.unreadWords_of_nextToken h]
    rfl
  · exact ⟨[], Cursor.unreadWords_of_nextToken h, by simp⟩

theorem exists_unreadWords_of_elementToken_none {c d : Cursor}
    (h : elementToken c = (none, d)) :
    ∃ opening, c.unreadWords = opening ++ d.unreadWords ∧ (∀ t ∈ opening, t = "[") ∧
      d.lineWords = [] := by
  unfold elementToken at h
  split at h
  · rename_i e he
    refine ⟨["["], ?_, by simp, (Cursor.lineWords_eq_nil_of_nextToken h).2⟩
    rw [Cursor.unreadWords_of_nextToken he, Cursor.unreadWords_of_nextToken_none h]
    rfl
  · exact ⟨[], Cursor.unreadWords_of_nextToken_none h, by simp,
      (Cursor.lineWords_eq_nil_of_nextToken h).2⟩

/-- **The rows of a matrix** are the words up to the first closing bracket: opening
brackets, which are passed over, and numbers. -/
theorem exists_unreadWords_of_rows {limit : Nat} {start : Position} {found : RowsFound}
    {c d : Cursor} {m : Matrix Single} (h : rows limit start found c = (.ok m, d)) :
    ∃ tokens, c.unreadWords = tokens ++ "]" :: d.unreadWords ∧
      ∀ token ∈ tokens, token = "[" ∨
        token ≠ "]" ∧ ∃ place x, Scalar.float .single token place = .ok x := by
  fun_induction rows limit start found c with
  | case1 found c e hnone e' hadvance ih =>
    -- the line is used up, so that nothing is lost with it
    obtain ⟨opening, hopen, hall, hline⟩ := exists_unreadWords_of_elementToken_none hnone
    obtain ⟨tokens, hwords, htokens⟩ := ih h
    have hnext := Cursor.unreadWords_advance hline
    rw [hadvance] at hnext
    refine ⟨opening ++ tokens, ?_, ?_⟩
    · rw [hopen, ← hnext, hwords, List.append_assoc]
    · intro t ht
      rcases List.mem_append.mp ht with ht | ht
      · exact Or.inl (hall t ht)
      · exact htokens t ht
  | case2 found c e hnone e' hadvance => simp at h
  | case3 found c e hsome =>
    obtain ⟨opening, hopen, hall⟩ := exists_unreadWords_of_elementToken hsome
    obtain rfl : e = d := congrArg Prod.snd h
    exact ⟨opening, hopen, fun t ht => Or.inl (hall t ht)⟩
  | case4 found c token e hsome hne hlimit => simp at h
  | case5 found c token e hsome hne hlimit fault hfault => simp at h
  -- whether a row ends behind the element makes no difference to the words
  | case6 found c token e hsome hne hlimit x hx e' hskip ih
  | case7 found c token e hsome hne hlimit x hx e' hskip ih =>
    obtain ⟨opening, hopen, hall⟩ := exists_unreadWords_of_elementToken hsome
    obtain ⟨tokens, hwords, htokens⟩ := ih h
    have hblanks := e.unreadWords_skipBlanks
    rw [hskip] at hblanks
    refine ⟨opening ++ token :: tokens, ?_, ?_⟩
    · rw [hopen, ← hblanks, hwords, List.append_assoc, List.cons_append]
    · intro t ht
      rcases List.mem_append.mp ht with ht | ht
      · exact Or.inl (hall t ht)
      · rcases List.mem_cons.mp ht with rfl | ht
        · exact Or.inr ⟨hne, _, x, hx⟩
        · exact htokens t ht

theorem exists_unreadWords_of_matrix {limits : Limits} {c d : Cursor} {m : Matrix Single}
    (h : matrix limits c = (.ok m, d)) :
    ∃ tokens, c.unreadWords = "[" :: tokens ++ "]" :: d.unreadWords ∧
      ∀ token ∈ tokens, token = "[" ∨
        token ≠ "]" ∧ ∃ place x, Scalar.float .single token place = .ok x := by
  unfold matrix at h
  split at h
  · simp at h
  · rename_i start e he
    obtain ⟨tokens, hwords, hall⟩ := exists_unreadWords_of_rows h
    refine ⟨tokens, ?_, hall⟩
    rw [unreadWords_of_openBracket he, hwords, List.cons_append]

end Bracketed

namespace Literal

/-- A reading that was wrapped up has succeeded if the result has. -/
theorem eq_ok_of_wrap {α : Type} {make : α → Value} {r : Reading α} {value : Value} {d : Cursor}
    (h : wrap make r = (.ok value, d)) : ∃ x, value = make x ∧ r = (.ok x, d) := by
  obtain ⟨_ | x, e⟩ := r
  · cases h
  · obtain ⟨hvalue, rfl⟩ := Prod.mk.inj h
    exact ⟨x, (Except.ok.inj hvalue).symm, rfl⟩

/-- A bracketed literal whose elements refuse an opener holds none. -/
theorem opener_not_mem_bracketed {tokens : List String} (h : Tag.opener ∉ tokens) :
    Tag.opener ∉ "[" :: tokens ++ ["]"] := by
  have hopen : Tag.opener ≠ "[" := by decide
  have hclose : Tag.opener ≠ "]" := by decide
  simp [hopen, hclose, h]

theorem exists_unreadWords_of_scalar {α : Type} {expected : Expected}
    {judge : String → Position → Except ParseError α} (hjudge : RefusesOpener judge)
    {c d : Cursor} {x : α} (h : Scalar.read expected judge c = (.ok x, d)) :
    ∃ tokens, c.unreadWords = tokens ++ d.unreadWords ∧ Tag.opener ∉ tokens := by
  obtain ⟨token, hwords, hx⟩ := Scalar.unreadWords_of_read h
  refine ⟨[token], hwords, fun hmem => ?_⟩
  rw [← List.mem_singleton.mp hmem] at hx
  exact hjudge _ _ hx

theorem exists_unreadWords_of_vector {α : Type} {limits : Limits}
    {judge : String → Position → Except ParseError α} (hjudge : RefusesOpener judge)
    {c d : Cursor} {xs : List α} (h : Bracketed.vector limits judge c = (.ok xs, d)) :
    ∃ tokens, c.unreadWords = tokens ++ d.unreadWords ∧ Tag.opener ∉ tokens := by
  obtain ⟨tokens, hwords, hall⟩ := Bracketed.exists_unreadWords_of_vector h
  refine ⟨"[" :: tokens ++ ["]"], by simp [hwords], opener_not_mem_bracketed fun hmem => ?_⟩
  obtain ⟨-, place, x, hx⟩ := hall _ hmem
  exact hjudge place x hx

theorem exists_unreadWords_of_matrix {limits : Limits} {c d : Cursor} {m : Matrix Single}
    (h : Bracketed.matrix limits c = (.ok m, d)) :
    ∃ tokens, c.unreadWords = tokens ++ d.unreadWords ∧ Tag.opener ∉ tokens := by
  obtain ⟨tokens, hwords, hall⟩ := Bracketed.exists_unreadWords_of_matrix h
  refine ⟨"[" :: tokens ++ ["]"], by simp [hwords], opener_not_mem_bracketed fun hmem => ?_⟩
  rcases hall _ hmem with hopen | ⟨-, place, x, hx⟩
  · exact absurd hopen (by decide)
  · exact Scalar.refusesOpener_float .single place x hx

/-- **A literal swallows no opener.** -/
theorem exists_unreadWords_of_read {limits : Limits} {l : Literal} {c d : Cursor} {value : Value}
    (h : l.read limits c = (.ok value, d)) :
    ∃ tokens, c.unreadWords = tokens ++ d.unreadWords ∧ Tag.opener ∉ tokens := by
  cases l with
  | bool =>
    obtain ⟨x, -, hx⟩ := eq_ok_of_wrap h
    exact exists_unreadWords_of_scalar Scalar.refusesOpener_bool hx
  | int =>
    obtain ⟨x, -, hx⟩ := eq_ok_of_wrap h
    exact exists_unreadWords_of_scalar Scalar.refusesOpener_integer hx
  | float =>
    obtain ⟨x, -, hx⟩ := eq_ok_of_wrap h
    exact exists_unreadWords_of_scalar (Scalar.refusesOpener_float .double) hx
  | ints =>
    obtain ⟨x, -, hx⟩ := eq_ok_of_wrap h
    exact exists_unreadWords_of_vector Scalar.refusesOpener_integer hx
  | floats =>
    obtain ⟨x, -, hx⟩ := eq_ok_of_wrap h
    exact exists_unreadWords_of_vector (Scalar.refusesOpener_float .single) hx
  | matrix =>
    obtain ⟨x, -, hx⟩ := eq_ok_of_wrap h
    exact exists_unreadWords_of_matrix hx

end Literal

/-! ### The body of a declaration -/

namespace Component

theorem unreadWords_noteSkipped (component token : String) (c : Cursor) :
    (noteSkipped component token c).unreadWords = c.unreadWords := by
  unfold noteSkipped
  split <;> rfl

/-- **The body of a declaration** reaches up to the token that ends it. If an opener is
among those that do, there is none before it. -/
theorem exists_unreadWords_of_collect {limits : Limits} {ends : List String}
    {record collected : Component} {c d : Cursor} {token : String} (hends : Tag.opener ∈ ends)
    (h : collect limits ends record c = (.ok token, collected, d)) :
    ∃ body, c.unreadWords = body ++ token :: d.unreadWords ∧ Tag.opener ∉ body := by
  fun_induction collect limits ends record c with
  | case1 record c e hpull => simp at h
  | case2 record c token' e hpull hmem =>
    obtain ⟨rfl, -, rfl⟩ : token' = token ∧ record = collected ∧ e = d := by simpa using h
    exact ⟨[], Cursor.unreadWords_of_pull hpull, by simp⟩
  | case3 record c token' e hpull hmem hrule ih =>
    obtain ⟨body, hwords, hbody⟩ := ih h
    -- an opener would have ended the body
    have hne : Tag.opener ≠ token' := fun heq => hmem (heq ▸ hends)
    refine ⟨token' :: body, ?_, by simp [hne, hbody]⟩
    rw [unreadWords_noteSkipped] at hwords
    rw [Cursor.unreadWords_of_pull hpull, hwords, List.cons_append]
  | case4 record c token' e hpull hmem rule hrule fault e' hread => simp at h
  | case5 record c token' e hpull hmem rule hrule value e' hread ih =>
    obtain ⟨body, hwords, hbody⟩ := ih h
    obtain ⟨tokens, htokens, hopener⟩ := Literal.exists_unreadWords_of_read hread
    have hne : Tag.opener ≠ token' := fun heq => hmem (heq ▸ hends)
    refine ⟨token' :: (tokens ++ body), ?_, by simp [hne, hopener, hbody]⟩
    rw [Cursor.unreadWords_of_pull hpull, htokens, hwords, List.cons_append, List.append_assoc]

theorem exists_unreadWords_of_readAttributes {limits : Limits} {ends : List String}
    {record finished : Component} {c d : Cursor} {token : String} (hends : Tag.opener ∈ ends)
    (h : readAttributes limits ends record c = (.ok token, finished, d)) :
    ∃ body, c.unreadWords = body ++ token :: d.unreadWords ∧ Tag.opener ∉ body := by
  cases BodyOutcome.of_eq h with
  | finished body => exact exists_unreadWords_of_collect hends body

end Component

/-! ### A declaration -/

namespace Section

theorem unreadWords_of_typeTag {c d : Cursor} {tag : String} (h : typeTag c = (.ok tag, d)) :
    c.unreadWords = tag :: d.unreadWords ∧ Tag.isComponentType tag = true := by
  cases TypeTagOutcome.of_eq h with
  | valid next type => exact ⟨Cursor.unreadWords_of_nextToken next, type⟩

/-- An opener does not name a type. -/
theorem opener_ne_of_isComponentType {tag : String} (h : Tag.isComponentType tag = true) :
    tag ≠ Tag.opener := by
  rintro rfl
  exact absurd h (by decide)

/-- **A declaration** takes a name, a type tag, a body without an opener and the token
that ends it; the component it yields has the number asked for, that name and that type. -/
theorem exists_unreadWords_of_declaration {limits : Limits} {id : Nat} {c d : Cursor}
    {component : Component} {next : Bool}
    (h : declaration limits id c = (.ok (component, next), d)) :
    ∃ tag body last, c.unreadWords =
        component.name :: tag :: (body ++ last :: d.unreadWords) ∧
      component.id = id ∧ component.typeTag = Tag.name tag ∧ tag ≠ Tag.opener ∧
      Tag.opener ∉ body ∧ (next = true ↔ last = Tag.opener) := by
  cases DeclarationOutcome.of_eq h with
  | @complete name tag last e e' f record _ hname htag hrecord hread =>
    obtain ⟨htagWords, htype⟩ := unreadWords_of_typeTag htag
    obtain ⟨body, hbody, hopener⟩ :=
      Component.exists_unreadWords_of_readAttributes (by simp) hread
    have hidentity := Component.identity_of_readAttributes limits
      [Tag.closing tag, Tag.opener] record e'
    rw [hread] at hidentity
    obtain ⟨hid, hfinished, -, htypeTag⟩ : component.id = record.id ∧
        component.name = record.name ∧ component.kind = record.kind ∧
        component.typeTag = record.typeTag := by
      simpa [Component.identity] using hidentity
    obtain ⟨hid', hname', htypeTag'⟩ := Component.identity_of_declare hrecord
    refine ⟨tag, body, last, ?_, hid.trans hid', htypeTag.trans htypeTag',
      opener_ne_of_isComponentType htype, hopener, beq_iff_eq⟩
    rw [Cursor.unreadWords_of_nextToken hname, htagWords, hbody, hfinished, hname']
    rfl

end Section

end NnetText
