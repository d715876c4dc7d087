import NnetText.Proofs.Consumption

/-!
# The tokens ahead

What a reader is going to meet is settled by where it stands. `NnetText.marks` lists the tokens of
a text with the offsets just behind them, and is defined on the text alone: the text is cut at
every blank, as for `NnetText.words`, with each character carrying its offset along.
`Cursor.lineAhead` and `Cursor.laterAhead` are the tokens of the current line and of the lines to
come, each with the cursor that stands just behind it; a line that cannot be decoded hides
whatever is behind it.

A step of the cursor is then a step along a list: `Cursor.nextToken_of_lineAhead` and
`Cursor.advance_of_laterAhead` within lines, `Cursor.pull_of_ahead` across them. A grammar for
what a reader accepts can be stated on the lists, and says with every token where it ends and
what is left behind it.
-/

namespace NnetText

open LinePlace (blanksOf tokenOf behindToken blanksOf_tokenOf_behindToken)

/-! ### The tokens of a text and where they end -/

/-- The characters of a text that starts at an offset, each with the offset just behind it. -/
def located (offset : Nat) : List Char → List (Char × Nat)
  | [] => []
  | c :: cs => (c, offset + c.utf8Size) :: located (offset + c.utf8Size) cs

/-- A piece between two blanks as a token, with the offset just behind it. An empty piece is
none. -/
def tokenOfPiece (piece : List (Char × Nat)) : Option (String × Nat) :=
  piece.getLast?.map (fun last => (String.ofList (piece.map Prod.fst), last.2))

/-- **The tokens of a text** that starts at an offset, each with the offset just behind it: the
text is cut at every blank, and the empty pieces are dropped. -/
def marks (offset : Nat) (text : List Char) : List (String × Nat) :=
  ((located offset text).splitOnP (fun p => isBlank p.1)).filterMap tokenOfPiece

theorem located_append (offset : Nat) (as bs : List Char) :
    located offset (as ++ bs) = located offset as ++ located (offset + byteSize as) bs := by
  induction as generalizing offset with
  | nil => rfl
  | cons a as ih =>
    rw [List.cons_append, located, ih, located, byteSize_cons, Nat.add_assoc, List.cons_append]

theorem map_fst_located (offset : Nat) (text : List Char) :
    (located offset text).map Prod.fst = text := by
  induction text generalizing offset with
  | nil => rfl
  | cons c cs ih => rw [located, List.map_cons, ih]

/-- Whether a character is blank does not depend on where it stands. -/
theorem isBlank_of_mem_located {offset : Nat} {text : List Char} {blank : Bool}
    (h : ∀ c ∈ text, isBlank c = blank) : ∀ p ∈ located offset text, isBlank p.1 = blank := by
  intro p hp
  refine h p.1 ?_
  rw [← map_fst_located offset text]
  exact List.mem_map_of_mem hp

/-- The last character of a text stands in front of the end of it. -/
theorem tokenOfPiece_located {text : List Char} (h : text ≠ []) (offset : Nat) :
    tokenOfPiece (located offset text) = some (String.ofList text, offset + byteSize text) := by
  rw [tokenOfPiece, map_fst_located]
  obtain ⟨front, c, rfl⟩ := (List.eq_nil_or_concat text).resolve_left h
  simp [located_append, located, Nat.add_assoc]

@[simp] theorem marks_nil (offset : Nat) : marks offset [] = [] := by
  simp [marks, located, tokenOfPiece]

/-- **A blank cuts the tokens of a text in two.** -/
theorem marks_append_cons {b : Char} (hb : isBlank b = true) (offset : Nat) (as bs : List Char) :
    marks offset (as ++ b :: bs) =
      marks offset as ++ marks (offset + byteSize as + b.utf8Size) bs := by
  rw [marks, located_append, located, List.splitOnP_append_cons _ _ (by exact hb),
    List.filterMap_append]
  rfl

/-- A blank in front of a text is passed over. -/
theorem marks_cons_blank {b : Char} (hb : isBlank b = true) (offset : Nat) (bs : List Char) :
    marks offset (b :: bs) = marks (offset + b.utf8Size) bs := by
  simpa using marks_append_cons hb offset [] bs

theorem marks_blanks_append {bs : List Char} (hbs : ∀ b ∈ bs, isBlank b = true) (offset : Nat)
    (cs : List Char) : marks offset (bs ++ cs) = marks (offset + byteSize bs) cs := by
  induction bs generalizing offset with
  | nil => rfl
  | cons b bs ih =>
    rw [List.cons_append, marks_cons_blank (hbs b (by simp)),
      ih (fun x hx => hbs x (List.mem_cons_of_mem _ hx)), byteSize_cons, Nat.add_assoc]

/-- A text without a blank is a single token, if it is anything. -/
theorem marks_of_no_blank {cs : List Char} (hne : cs ≠ []) (h : ∀ c ∈ cs, isBlank c = false)
    (offset : Nat) : marks offset cs = [(String.ofList cs, offset + byteSize cs)] := by
  rw [marks, List.splitOnP_eq_singleton (isBlank_of_mem_located h),
    List.filterMap_cons_some (tokenOfPiece_located hne offset), List.filterMap_nil]

/-- Without a token there is no mark. -/
theorem marks_eq_nil_of_tokenOf {cs : List Char} (h : tokenOf cs = []) (offset : Nat) :
    marks offset cs = [] := by
  have hblank : ∀ b ∈ cs, isBlank b = true := by
    intro b hb
    rw [← blanksOf_eq_self_of_tokenOf h] at hb
    exact isBlank_of_mem_blanksOf hb
  have hmarks := marks_blanks_append hblank offset []
  rwa [List.append_nil, marks_nil] at hmarks

/-- **The first mark of a text is that of its token**, and the others stand behind it. -/
theorem marks_eq_cons_tokenOf {cs : List Char} (h : tokenOf cs ≠ []) (offset : Nat) :
    marks offset cs =
      (String.ofList (tokenOf cs), offset + byteSize (blanksOf cs ++ tokenOf cs)) ::
        marks (offset + byteSize (blanksOf cs ++ tokenOf cs)) (behindToken cs) := by
  have htoken := marks_of_no_blank h (fun _ hc => isBlank_of_mem_tokenOf hc)
    (offset + byteSize (blanksOf cs))
  have hcs : marks offset cs =
      marks (offset + byteSize (blanksOf cs)) (tokenOf cs ++ behindToken cs) := by
    conv_lhs => rw [← blanksOf_tokenOf_behindToken cs, List.append_assoc]
    exact marks_blanks_append (fun _ hc => isBlank_of_mem_blanksOf hc) _ _
  rw [hcs, byteSize_append, ← Nat.add_assoc]
  rcases behindToken_cases cs with hnil | ⟨b, bs, hbs, hb⟩
  · rw [hnil, List.append_nil, htoken, marks_nil]
  · rw [hbs, marks_append_cons hb, htoken, marks_cons_blank hb, List.singleton_append]

/-- **The marks of a text are its words**, with their places. -/
theorem map_fst_marks (offset : Nat) (text : List Char) :
    (marks offset text).map Prod.fst = words text := by
  induction text using tokenInduction generalizing offset with
  | blank text h => rw [marks_eq_nil_of_tokenOf h, words_eq_nil_of_tokenOf h, List.map_nil]
  | token text h ih => rw [marks_eq_cons_tokenOf h, words_eq_cons_tokenOf h, List.map_cons, ih]

/-! ### What a cursor has ahead -/

/-- A token, and the cursor that stands just behind it. -/
abbrev Sighting := String × Cursor

namespace Cursor

/-- The cursor at an offset of its line. -/
def atOffset (c : Cursor) (offset : Nat) : Cursor :=
  { c with place := .ofOffset c.line offset }

/-- **The tokens left on the current line.** -/
def lineAhead (c : Cursor) : List Sighting :=
  (marks c.offset (c.place.rest.getD [])).map (fun m => (m.1, c.atOffset m.2))

/-- The cursor in front of the first of the lines to come. -/
def onLine (c : Cursor) (line : List Char) (later : List SourceLine) : Cursor :=
  { c with pending := later, place := .start line, lineNumber := c.lineNumber + 1 }

/-- The tokens of lines, as a cursor will meet them. -/
def linesAhead (c : Cursor) : List SourceLine → List (List Sighting)
  | .text line :: later => (c.onLine line later).lineAhead :: linesAhead (c.onLine line later) later
  | .failed _ :: _ | [] => []

/-- **The tokens of the lines to come**, line by line, up to the first that cannot be decoded. -/
def laterAhead (c : Cursor) : List (List Sighting) := c.linesAhead c.pending

/-- **The tokens ahead**, on whatever lines they stand. -/
def ahead (c : Cursor) : List Sighting := c.lineAhead ++ c.laterAhead.flatten

variable {c d : Cursor} {token : String} {line rest : List Sighting}

/-- What a cursor has ahead at another place of its line. -/
theorem lineAhead_of_place {p : LinePlace} {text : List Char} (hline : p.line = c.line)
    (h : p.rest = some text) :
    { c with place := p }.lineAhead =
      (marks p.offset text).map (fun m => (m.1, c.atOffset m.2)) := by
  have hoffset : atOffset { c with place := p } = c.atOffset := by
    funext offset
    exact congrArg (fun line => { c with place := LinePlace.ofOffset line offset }) hline
  rw [lineAhead, hoffset]
  change (marks p.offset (p.rest.getD [])).map _ = _
  rw [h, Option.getD_some]

theorem lineAhead_of_rest {text : List Char} (h : c.place.rest = some text) :
    c.lineAhead = (marks c.offset text).map (fun m => (m.1, c.atOffset m.2)) :=
  lineAhead_of_place rfl h

/-- The tokens left on a line are the words left on it. -/
theorem map_fst_lineAhead (c : Cursor) : c.lineAhead.map Prod.fst = c.lineWords := by
  rw [lineAhead, List.map_map, lineWords, ← map_fst_marks c.offset]
  rfl

/-- The lines to come are the same wherever the cursor stands on its line. -/
theorem laterAhead_congr_place (c : Cursor) (place : LinePlace) :
    { c with place := place }.laterAhead = c.laterAhead := by
  rw [laterAhead, laterAhead]
  change linesAhead { c with place := place } c.pending = c.linesAhead c.pending
  cases c.pending with
  | nil => rfl
  | cons first later => cases first <;> rfl

theorem laterAhead_of_nextToken {token : Option String} (h : c.nextToken = (token, d)) :
    d.laterAhead = c.laterAhead := by
  obtain rfl : c.nextToken.2 = d := congrArg Prod.snd h
  exact laterAhead_congr_place c _

/-- **The next token of a line is the first ahead.** -/
theorem nextToken_of_lineAhead (h : c.lineAhead = (token, d) :: rest) :
    c.nextToken = (some token, d) ∧ d.lineAhead = rest := by
  rcases htext : c.place.rest with _ | text
  · rw [lineAhead, htext, Option.getD_none, marks_nil] at h
    cases h
  · rw [lineAhead_of_rest htext] at h
    by_cases htoken : tokenOf text = []
    · rw [marks_eq_nil_of_tokenOf htoken] at h
      cases h
    · have hfst := LinePlace.fst_nextToken htext
      have hoffset : c.place.nextToken.2.offset = c.offset + _ := LinePlace.offset_nextToken htext
      have hplace : c.nextToken.2 =
          c.atOffset (c.offset + byteSize (blanksOf text ++ tokenOf text)) := by
        have heta := LinePlace.ofOffset_line_offset c.place.nextToken.2
        rw [LinePlace.line_nextToken, hoffset] at heta
        exact congrArg (fun p => { c with place := p }) heta.symm
      rw [if_neg (by simpa using htoken)] at hfst
      rw [marks_eq_cons_tokenOf htoken, List.map_cons, ← hplace] at h
      obtain ⟨hhead, rfl⟩ := List.cons.inj h
      obtain ⟨rfl, rfl⟩ := Prod.mk.inj hhead
      refine ⟨Prod.ext hfst rfl, ?_⟩
      rw [← hoffset]
      exact lineAhead_of_place (LinePlace.line_nextToken _) (LinePlace.rest_nextToken htext)

/-- **Without a token ahead there is none on the line**, and the cursor goes to its end. -/
theorem nextToken_of_lineAhead_nil (h : c.lineAhead = []) :
    ∃ d, c.nextToken = (none, d) ∧ d.lineAhead = [] ∧
      d.position = ⟨c.lineNumber, c.offset + byteSize (c.place.rest.getD [])⟩ := by
  have hwords : c.lineWords = [] := by rw [← map_fst_lineAhead, h, List.map_nil]
  have hnext := nextToken_of_lineWords_nil hwords
  refine ⟨c.nextToken.2, hnext, ?_, ?_⟩
  · refine List.map_eq_nil_iff.mp ((map_fst_lineAhead _).trans ?_)
    exact (lineWords_eq_nil_of_nextToken hnext).2
  · change (⟨c.lineNumber, c.place.nextToken.2.offset⟩ : Position) = _
    rcases htext : c.place.rest with _ | text
    · rw [LinePlace.nextToken_of_rest_none htext]
      rfl
    · rw [LinePlace.offset_nextToken htext]
      have htoken : tokenOf text = [] := by
        by_contra hne
        rw [lineWords, htext, Option.getD_some, words_eq_cons_tokenOf hne] at hwords
        cases hwords
      rw [htoken, List.append_nil, blanksOf_eq_self_of_tokenOf htoken]
      rfl

/-- **The next line is the first to come.** -/
theorem advance_of_laterAhead {later : List (List Sighting)} (h : c.laterAhead = line :: later) :
    ∃ d, c.advance = (true, d) ∧ d.lineAhead = line ∧ d.laterAhead = later := by
  rcases advance_cases c with ⟨hp, -⟩ | ⟨text, rest, hp, heq⟩ | ⟨reason, rest, hp, -⟩
  · rw [laterAhead, hp] at h
    cases h
  · rw [laterAhead, hp] at h
    obtain ⟨rfl, rfl⟩ := List.cons.inj h
    exact ⟨c.onLine text rest, heq, rfl, rfl⟩
  · rw [laterAhead, hp] at h
    cases h

theorem advance_of_laterAhead_nil (h : c.laterAhead = []) : ∃ d, c.advance = (false, d) := by
  rcases advance_cases c with ⟨-, heq⟩ | ⟨text, rest, hp, -⟩ | ⟨reason, rest, -, heq⟩
  · exact ⟨_, heq⟩
  · rw [laterAhead, hp] at h
    cases h
  · exact ⟨_, heq⟩

/-- **The token pulled is the first ahead**, on whatever line it stands. -/
theorem pull_of_ahead (h : c.ahead = (token, d) :: rest) :
    c.pull = (some token, d) ∧ d.ahead = rest := by
  induction hn : c.laterAhead generalizing c with
  | nil =>
    rw [ahead, hn, List.flatten_nil, List.append_nil] at h
    obtain ⟨hnext, hline⟩ := nextToken_of_lineAhead h
    refine ⟨pull_of_nextToken hnext, ?_⟩
    rw [ahead, laterAhead_of_nextToken hnext, hn, hline, List.flatten_nil, List.append_nil]
  | cons line later ih =>
    rcases hline : c.lineAhead with _ | ⟨⟨token', d'⟩, line'⟩
    · -- the line is used up, and the token stands on a later one
      obtain ⟨e, hnext, -, -⟩ := nextToken_of_lineAhead_nil hline
      rw [← laterAhead_of_nextToken hnext] at hn
      obtain ⟨f, hadvance, hfline, hflater⟩ := advance_of_laterAhead hn
      have hf : f.ahead = c.ahead := by
        rw [ahead, ahead, hline, hfline, hflater, ← laterAhead_of_nextToken hnext, hn,
          List.flatten_cons, List.nil_append]
      rw [pull_of_advance hnext hadvance]
      exact ih (hf.trans h) hflater
    · rw [ahead, hline, List.cons_append] at h
      obtain ⟨hhead, rfl⟩ := List.cons.inj h
      obtain ⟨rfl, rfl⟩ := Prod.mk.inj hhead
      obtain ⟨hnext, hd⟩ := nextToken_of_lineAhead hline
      refine ⟨pull_of_nextToken hnext, ?_⟩
      rw [ahead, hd, laterAhead_of_nextToken hnext]

theorem pull_of_ahead_nil (h : c.ahead = []) : ∃ d, c.pull = (none, d) := by
  induction hn : c.laterAhead generalizing c with
  | nil =>
    rw [ahead, hn, List.flatten_nil, List.append_nil] at h
    obtain ⟨e, hnext, -, -⟩ := nextToken_of_lineAhead_nil h
    rw [← laterAhead_of_nextToken hnext] at hn
    obtain ⟨f, hadvance⟩ := advance_of_laterAhead_nil hn
    exact ⟨f, pull_of_advance_false hnext hadvance⟩
  | cons line later ih =>
    obtain ⟨hline, hlater⟩ := List.append_eq_nil_iff.mp h
    obtain ⟨e, hnext, -, -⟩ := nextToken_of_lineAhead_nil hline
    rw [← laterAhead_of_nextToken hnext] at hn hlater
    obtain ⟨f, hadvance, hfline, hflater⟩ := advance_of_laterAhead hn
    rw [pull_of_advance hnext hadvance]
    refine ih ?_ hflater
    rw [hn, List.flatten_cons] at hlater
    rw [ahead, hfline, hflater, hlater]

/-- Passing over blanks passes over no token. -/
theorem lineAhead_skipBlanks (c : Cursor) : c.skipBlanks.2.lineAhead = c.lineAhead := by
  rcases htext : c.place.rest with _ | text
  · change lineAhead { c with place := c.place.skipBlanks.2 } = _
    rw [LinePlace.skipBlanks_of_rest_none htext]
  · obtain ⟨hline, hoffset, hrest⟩ : c.place.skipBlanks.2.line = c.line ∧
        c.place.skipBlanks.2.offset = c.offset + byteSize (blanksOf text) ∧
        c.place.skipBlanks.2.rest = some (text.dropWhile isBlank) := by
      rw [LinePlace.skipBlanks_of_rest htext]
      exact ⟨rfl, rfl, rfl⟩
    have hmarks : marks c.offset text =
        marks (c.offset + byteSize (blanksOf text)) (text.dropWhile isBlank) := by
      conv_lhs => rw [← List.takeWhile_append_dropWhile (p := isBlank) (l := text)]
      exact marks_blanks_append (fun _ hb => isBlank_of_mem_blanksOf hb) _ _
    rw [lineAhead_of_rest htext, hmarks, ← hoffset]
    exact lineAhead_of_place hline hrest

theorem laterAhead_skipBlanks (c : Cursor) : c.skipBlanks.2.laterAhead = c.laterAhead :=
  laterAhead_congr_place c _

end Cursor

end NnetText
