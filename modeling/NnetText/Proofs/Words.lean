import Mathlib.Data.List.Basic
import Mathlib.Data.List.TakeWhile
import NnetText.Cursor

/-!
# Words and lines

What a text says to a reader is its words, line by line. This file states that
without a cursor: `NnetText.words` cuts a text at every blank and keeps the pieces
that are not empty, `NnetText.wordLines` does so for each line and keeps the lines
that have a word.

The one equation everything turns on is `NnetText.words_append_cons`: a blank cuts
the words of a text in two. From it follow the two ways in which the rest of the
development meets words, namely a token at a time (`NnetText.words_eq_cons_tokenOf`)
and a line at a time (`NnetText.wordLines_eq_linesOf`), and every change of layout that
leaves the words where they are.
-/

namespace NnetText

/-! ### The words of a text -/

/-- **The words of a text**: it is cut at every blank, and the empty pieces are
dropped. -/
def words (text : List Char) : List String :=
  ((text.splitOnP isBlank).filter (fun piece => !piece.isEmpty)).map String.ofList

@[simp] theorem words_nil : words [] = [] := by simp [words]

/-- **A blank cuts the words of a text in two.** -/
theorem words_append_cons {b : Char} (hb : isBlank b = true) (as bs : List Char) :
    words (as ++ b :: bs) = words as ++ words bs := by
  simp only [words, List.splitOnP_append_cons as bs hb, List.filter_append, List.map_append]

/-- A blank in front of a text belongs to no word. -/
theorem words_cons_blank {b : Char} (hb : isBlank b = true) (bs : List Char) :
    words (b :: bs) = words bs := by
  simpa using words_append_cons hb [] bs

theorem words_blanks_append {bs : List Char} (hbs : ∀ b ∈ bs, isBlank b = true)
    (cs : List Char) : words (bs ++ cs) = words cs := by
  induction bs with
  | nil => rfl
  | cons b bs ih =>
    rw [List.cons_append, words_cons_blank (hbs b (by simp)),
      ih (fun x hx => hbs x (List.mem_cons_of_mem _ hx))]

theorem words_blanks {bs : List Char} (hbs : ∀ b ∈ bs, isBlank b = true) : words bs = [] := by
  simpa using words_blanks_append hbs []

/-- A text without a blank is a single word, if it is anything. -/
theorem words_of_no_blank {cs : List Char} (hne : cs ≠ [])
    (h : ∀ c ∈ cs, isBlank c = false) : words cs = [String.ofList cs] := by
  simp [words, List.splitOnP_eq_singleton h, hne]

/-- Blanks at the end of a text belong to no word. -/
theorem words_append_blank {b : Char} (hb : isBlank b = true) (as : List Char) :
    words (as ++ [b]) = words as := by
  simpa using words_append_cons hb as []

/-! ### One word at a time

`NnetText.LinePlace.tokenOf` takes the first word off a text and
`NnetText.LinePlace.behindToken` is what is left, so that taking tokens in turn
lists the words. -/

open LinePlace

theorem isBlank_of_mem_blanksOf {cs : List Char} {c : Char} (h : c ∈ blanksOf cs) :
    isBlank c = true := by
  have hall := List.all_takeWhile (l := cs) (p := isBlank)
  exact List.all_eq_true.mp hall c h

theorem isBlank_of_mem_tokenOf {cs : List Char} {c : Char} (h : c ∈ tokenOf cs) :
    isBlank c = false := by
  have hall := List.all_takeWhile (l := cs.dropWhile isBlank) (p := fun x => !isBlank x)
  simpa using List.all_eq_true.mp hall c h

/-- Behind a token stands a blank, or nothing. -/
theorem behindToken_cases (cs : List Char) :
    behindToken cs = [] ∨ ∃ b bs, behindToken cs = b :: bs ∧ isBlank b = true := by
  rcases h : behindToken cs with _ | ⟨b, bs⟩
  · exact Or.inl rfl
  · refine Or.inr ⟨b, bs, rfl, ?_⟩
    have hhead := List.head?_dropWhile_not (fun x => !isBlank x) (cs.dropWhile isBlank)
    rw [behindToken] at h
    simpa [h] using hhead

/-- Without a token there are only blanks. -/
theorem blanksOf_eq_self_of_tokenOf {cs : List Char} (h : tokenOf cs = []) : blanksOf cs = cs := by
  -- whatever stood behind the blanks would be the first character of a token
  have hdrop : cs.dropWhile isBlank = [] := by
    rcases hcs : cs.dropWhile isBlank with _ | ⟨c, rest⟩
    · rfl
    · have hc := List.head?_dropWhile_not isBlank cs
      simp [hcs] at hc
      simp [tokenOf, hcs, hc] at h
  have happend : cs.takeWhile isBlank ++ cs.dropWhile isBlank = cs :=
    List.takeWhile_append_dropWhile
  rwa [hdrop, List.append_nil] at happend

/-- Without a token there is nothing behind it either: the text is blank. -/
theorem words_eq_nil_of_tokenOf {cs : List Char} (h : tokenOf cs = []) : words cs = [] := by
  rw [← blanksOf_eq_self_of_tokenOf h]
  exact words_blanks fun _ hb => isBlank_of_mem_blanksOf hb

/-- **The first word of a text is its token**, and the others stand behind it. -/
theorem words_eq_cons_tokenOf {cs : List Char} (h : tokenOf cs ≠ []) :
    words cs = String.ofList (tokenOf cs) :: words (behindToken cs) := by
  have htoken := words_of_no_blank h (fun _ hc => isBlank_of_mem_tokenOf hc)
  have hcs : words cs = words (tokenOf cs ++ behindToken cs) := by
    conv_lhs => rw [← blanksOf_tokenOf_behindToken cs, List.append_assoc]
    exact words_blanks_append (fun _ hc => isBlank_of_mem_blanksOf hc) _
  rw [hcs]
  rcases behindToken_cases cs with hnil | ⟨b, bs, hbs, hb⟩
  · rw [hnil, List.append_nil, htoken, words_nil]
  · rw [hbs, words_append_cons hb, words_cons_blank hb, htoken, List.singleton_append]

/-- **Induction over the tokens of a text**: blanks alone, or a token with a text behind it. -/
theorem tokenInduction {motive : List Char → Prop}
    (blank : ∀ text, tokenOf text = [] → motive text)
    (token : ∀ text, tokenOf text ≠ [] → motive (behindToken text) → motive text)
    (text : List Char) : motive text := by
  by_cases h : tokenOf text = []
  · exact blank text h
  · have hlt : (behindToken text).length < text.length := by
      have hlen := congrArg List.length (blanksOf_tokenOf_behindToken text)
      have hpos := List.length_pos_iff.mpr h
      simp only [List.length_append] at hlen
      omega
    exact token text h (tokenInduction blank token (behindToken text))
termination_by text.length

/-! ### Pieces of a list

`NnetText.splitAfter` cuts behind each separator, so that a list which ends in a
separator can be put in front of any other without disturbing its pieces. -/

section Pieces

variable {α : Type} {separator : α → Bool}

theorem splitAfter_cons (a : α) (l : List α) :
    splitAfter separator (a :: l) = consPiece separator a (splitAfter separator l) := rfl

/-- **The first piece** reaches up to and including the first separator. -/
theorem splitAfter_append_cons {piece : List α} {s : α}
    (hpiece : ∀ x ∈ piece, separator x = false) (hs : separator s = true) (rest : List α) :
    splitAfter separator (piece ++ s :: rest) =
      (piece ++ [s]) :: splitAfter separator rest := by
  induction piece with
  | nil =>
    rw [List.nil_append, splitAfter_cons]
    cases splitAfter separator rest with
    | nil => rfl
    | cons first others => simp [consPiece, hs]
  | cons a piece ih =>
    have ha : separator a = false := hpiece a (by simp)
    rw [List.cons_append, splitAfter_cons, ih (fun x hx => hpiece x (List.mem_cons_of_mem _ hx))]
    simp [consPiece, ha]

theorem splitAfter_eq_singleton {l : List α} (hne : l ≠ [])
    (h : ∀ x ∈ l, separator x = false) : splitAfter separator l = [l] := by
  induction l with
  | nil => exact absurd rfl hne
  | cons a l ih =>
    have ha : separator a = false := h a (by simp)
    rcases l with _ | ⟨b, l⟩
    · rfl
    · rw [splitAfter_cons, ih (by simp) (fun x hx => h x (List.mem_cons_of_mem _ hx))]
      simp [consPiece, ha]

theorem splitAfter_ne_nil {l : List α} (hne : l ≠ []) : splitAfter separator l ≠ [] := by
  intro h
  have hflat := flatten_splitAfter separator l
  rw [h] at hflat
  exact hne hflat.symm

/-- **A list that ends in a separator is cut by itself**, whatever follows it. -/
theorem splitAfter_append {as : List α} (has : ∀ a ∈ as.getLast?, separator a = true)
    (bs : List α) :
    splitAfter separator (as ++ bs) = splitAfter separator as ++ splitAfter separator bs := by
  induction as with
  | nil => rfl
  | cons a as ih =>
    rw [List.cons_append, splitAfter_cons, splitAfter_cons]
    rcases as with _ | ⟨b, as⟩
    · -- the last element, and so a separator: here one list is cut off from the other
      have ha : separator a = true := has a (by simp)
      rw [List.nil_append]
      cases splitAfter separator bs with
      | nil => rfl
      | cons first others => simp [splitAfter, consPiece, ha]
    · have hne : splitAfter separator (b :: as) ≠ [] := splitAfter_ne_nil (by simp)
      rw [ih (fun x hx => has x (by simpa using hx))]
      cases h : splitAfter separator (b :: as) with
      | nil => exact absurd h hne
      | cons first others =>
        simp only [consPiece, List.cons_append]
        split <;> rfl

/-- Cutting a list whose members have been renamed is cutting the list. -/
theorem splitAfter_map {β : Type} (f : β → α) (l : List β) :
    splitAfter separator (l.map f) = (splitAfter (separator ∘ f) l).map (List.map f) := by
  induction l with
  | nil => rfl
  | cons b l ih =>
    rw [List.map_cons, splitAfter_cons, splitAfter_cons, ih]
    cases splitAfter (separator ∘ f) l with
    | nil => rfl
    | cons first others =>
      simp only [List.map_cons, consPiece, Function.comp_apply]
      split <;> rfl

/-- **Induction over the pieces of a list**: the last one has no separator in it, and every
other is followed by one. -/
theorem pieceInduction {p : α → Bool} {motive : List α → Prop}
    (last : ∀ piece, (∀ x ∈ piece, p x = false) → motive piece)
    (piece : ∀ piece s rest, (∀ x ∈ piece, p x = false) → p s = true → motive rest →
      motive (piece ++ s :: rest))
    (l : List α) : motive l := by
  rcases h : l.dropWhile (fun x => !p x) with _ | ⟨s, rest⟩
  · refine last l fun x hx => ?_
    simpa using List.dropWhile_eq_nil_iff.mp h x hx
  · have hs : p s = true := by
      have hhead := List.head?_dropWhile_not (fun x => !p x) l
      simpa [h] using hhead
    have hlt : rest.length < l.length := by
      have hle := (List.dropWhile_sublist (fun x => !p x) (l := l)).length_le
      rw [h, List.length_cons] at hle
      omega
    have hall := List.all_takeWhile (l := l) (p := fun x => !p x)
    rw [← List.takeWhile_append_dropWhile (p := fun x => !p x) (l := l), h]
    refine piece _ s rest (fun x hx => ?_) hs (pieceInduction last piece rest)
    simpa using List.all_eq_true.mp hall x hx
termination_by l.length

/-- The first pieces of a list, joined again, are cut into just these pieces. -/
theorem splitAfter_flatten_take (k : Nat) (l : List α) :
    splitAfter separator ((splitAfter separator l).take k).flatten =
      (splitAfter separator l).take k := by
  induction l using pieceInduction (p := separator) generalizing k with
  | last piece hpiece =>
    rcases eq_or_ne piece [] with rfl | hne
    · simp [splitAfter]
    · rw [splitAfter_eq_singleton hne hpiece]
      cases k with
      | zero => rfl
      | succ k => simpa using splitAfter_eq_singleton hne hpiece
  | piece piece s rest hpiece hs ih =>
    rw [splitAfter_append_cons hpiece hs]
    cases k with
    | zero => rfl
    | succ k =>
      rw [List.take_succ_cons, List.flatten_cons, List.append_assoc, List.singleton_append,
        splitAfter_append_cons hpiece hs, ih]

end Pieces

/-! ### The lines of a text -/

/-- **Induction over the lines of a text**: the last one has no line feed, and every
other is followed by one. -/
theorem lineInduction {motive : List Char → Prop}
    (last : ∀ line, '\n' ∉ line → motive line)
    (line : ∀ line rest, '\n' ∉ line → motive rest → motive (line ++ '\n' :: rest))
    (text : List Char) : motive text := by
  have hfeed : ∀ piece : List Char, (∀ x ∈ piece, (x == '\n') = false) → '\n' ∉ piece :=
    fun piece h hmem => absurd (h _ hmem) (by simp)
  induction text using pieceInduction (p := (· == '\n')) with
  | last piece hpiece => exact last piece (hfeed piece hpiece)
  | piece piece s rest hpiece hs ih =>
    obtain rfl : s = '\n' := beq_iff_eq.mp hs
    exact line piece rest (hfeed piece hpiece) ih

/-- The lines of a text, each with the line feed that ends it. -/
def linesOf (text : List Char) : List (List Char) := splitAfter (· == '\n') text

theorem ofText_eq_map_linesOf (text : List Char) :
    SourceLine.ofText text = (linesOf text).map .text := rfl

@[simp] theorem linesOf_nil : linesOf [] = [] := rfl

theorem linesOf_append_feed {line : List Char} (hline : '\n' ∉ line) (rest : List Char) :
    linesOf (line ++ '\n' :: rest) = (line ++ ['\n']) :: linesOf rest := by
  refine splitAfter_append_cons (fun x hx => ?_) (by simp) rest
  exact beq_eq_false_iff_ne.mpr (ne_of_mem_of_not_mem hx hline)

theorem linesOf_of_no_feed {line : List Char} (hne : line ≠ []) (hline : '\n' ∉ line) :
    linesOf line = [line] := by
  refine splitAfter_eq_singleton hne (fun x hx => ?_)
  exact beq_eq_false_iff_ne.mpr (ne_of_mem_of_not_mem hx hline)

theorem linesOf_append {as : List Char} (has : as = [] ∨ as.getLast? = some '\n')
    (bs : List Char) : linesOf (as ++ bs) = linesOf as ++ linesOf bs := by
  refine splitAfter_append (fun a ha => ?_) bs
  rcases has with rfl | has
  · simp at ha
  · rw [has] at ha
    obtain rfl : '\n' = a := by simpa using ha
    rfl

/-- Whole lines stay what they are, whatever follows them. -/
theorem ofText_append {as : List Char} (has : as = [] ∨ as.getLast? = some '\n')
    (bs : List Char) :
    SourceLine.ofText (as ++ bs) = SourceLine.ofText as ++ SourceLine.ofText bs := by
  simp only [ofText_eq_map_linesOf, linesOf_append has, List.map_append]

/-- **A line has its line feed last**, if it has one at all. -/
theorem feed_not_mem_dropLast {text line : List Char} (h : line ∈ linesOf text) :
    '\n' ∉ line.dropLast := by
  induction text using lineInduction with
  | last first hfirst =>
    rcases eq_or_ne first [] with rfl | hne
    · simp at h
    · rw [linesOf_of_no_feed hne hfirst, List.mem_singleton] at h
      rw [h]
      exact fun hmem => hfirst (List.dropLast_subset _ hmem)
  | line first rest hfirst ih =>
    rw [linesOf_append_feed hfirst, List.mem_cons] at h
    rcases h with rfl | h
    · simpa using hfirst
    · exact ih h

/-- The first lines of a text, joined again, have just these lines. -/
theorem linesOf_flatten_take (k : Nat) (text : List Char) :
    linesOf ((linesOf text).take k).flatten = (linesOf text).take k :=
  splitAfter_flatten_take k text

/-! ### The words of each line -/

/-- **The words of a text, line by line**; lines without a word are dropped. -/
def wordLines (text : List Char) : List (List String) :=
  ((text.splitOn '\n').map words).filter (fun line => !line.isEmpty)

@[simp] theorem wordLines_nil : wordLines [] = [] := by simp [wordLines]

/-- **A line feed cuts the lines of a text in two.** -/
theorem wordLines_append_feed (as bs : List Char) :
    wordLines (as ++ '\n' :: bs) = wordLines as ++ wordLines bs := by
  simp only [wordLines, List.splitOn_append_cons_self, List.map_append, List.filter_append]

theorem wordLines_of_no_feed {line : List Char} (h : '\n' ∉ line) :
    wordLines line = [words line].filter (fun line => !line.isEmpty) := by
  simp [wordLines, List.splitOn_eq_singleton h]

/-- Lines that differ in their blanks only are the same. -/
theorem wordLines_congr {line line' : List Char} (h : '\n' ∉ line) (h' : '\n' ∉ line')
    (heq : words line = words line') : wordLines line = wordLines line' := by
  rw [wordLines_of_no_feed h, wordLines_of_no_feed h', heq]

/-- The lines a source hands over are the lines of the text. -/
theorem wordLines_eq_linesOf (text : List Char) :
    wordLines text = ((linesOf text).map words).filter (fun line => !line.isEmpty) := by
  induction text using lineInduction with
  | last line hline =>
    rcases eq_or_ne line [] with rfl | hne
    · simp
    · rw [wordLines_of_no_feed hline, linesOf_of_no_feed hne hline, List.map_singleton]
  | line line rest hline ih =>
    rw [wordLines_append_feed, linesOf_append_feed hline, wordLines_of_no_feed hline, ih,
      List.map_cons, words_append_blank isBlank_lineFeed, ← List.filter_append,
      List.singleton_append]

/-- The words of all lines are the words of the text. -/
theorem flatten_map_words_linesOf (text : List Char) :
    ((linesOf text).map words).flatten = words text := by
  induction text using lineInduction with
  | last line hline =>
    rcases eq_or_ne line [] with rfl | hne
    · simp
    · simp [linesOf_of_no_feed hne hline]
  | line line rest hline ih =>
    rw [linesOf_append_feed hline, words_append_cons isBlank_lineFeed, List.map_cons,
      List.flatten_cons, words_append_blank isBlank_lineFeed, ih]

/-! ### Changes of layout

Each of these changes a text and leaves the words of its lines as they are. -/

/-- A line feed behind the last line changes nothing. -/
theorem wordLines_append_feed_nil (text : List Char) :
    wordLines (text ++ ['\n']) = wordLines text := by
  simp [wordLines_append_feed]

/-- The text with each line feed written as a carriage return and a line feed. -/
def withReturns (text : List Char) : List Char :=
  text.flatMap (fun c => if c = '\n' then ['\r', '\n'] else [c])

theorem withReturns_of_no_feed {line : List Char} (h : '\n' ∉ line) : withReturns line = line := by
  induction line with
  | nil => rfl
  | cons c line ih =>
    have hc : c ≠ '\n' := fun hc => h (hc ▸ List.mem_cons_self)
    have hstep : withReturns (c :: line) = c :: withReturns line := by
      simp [withReturns, hc]
    rw [hstep, ih (fun hmem => h (List.mem_cons_of_mem _ hmem))]

/-- **Carriage returns change nothing.** -/
theorem wordLines_withReturns (text : List Char) :
    wordLines (withReturns text) = wordLines text := by
  induction text using lineInduction with
  | last line hline => rw [withReturns_of_no_feed hline]
  | line line rest hline ih =>
    have hsplit : withReturns (line ++ '\n' :: rest) =
        (line ++ ['\r']) ++ '\n' :: withReturns rest := by
      have hline' : withReturns line = line := withReturns_of_no_feed hline
      simp only [withReturns, List.flatMap_append, List.flatMap_cons] at hline' ⊢
      simp [hline']
    rw [hsplit, wordLines_append_feed, wordLines_append_feed, ih]
    refine congrArg (· ++ wordLines rest) (wordLines_congr ?_ hline ?_)
    · simpa using hline
    · exact words_append_blank (by decide) line

/-- Blanks at the beginning of a text change nothing, line feeds among them or not. -/
theorem wordLines_blanks_append {bs : List Char} (hbs : ∀ b ∈ bs, isBlank b = true)
    (text : List Char) : wordLines (bs ++ text) = wordLines text := by
  induction bs with
  | nil => rfl
  | cons b bs ih =>
    have hb : isBlank b = true := hbs b (by simp)
    rw [List.cons_append, ← ih (fun x hx => hbs x (List.mem_cons_of_mem _ hx))]
    -- a line feed ends a line without words, and any other blank joins the first line
    rcases eq_or_ne b '\n' with rfl | hne
    · simpa using wordLines_append_feed [] (bs ++ text)
    · induction bs ++ text using lineInduction with
      | last line hline =>
        exact wordLines_congr (by simp [hne.symm, hline]) hline (words_cons_blank hb line)
      | line line rest hline =>
        rw [← List.cons_append, wordLines_append_feed, wordLines_append_feed]
        refine congrArg (· ++ wordLines rest) (wordLines_congr ?_ hline (words_cons_blank hb line))
        simp [hne.symm, hline]

/-- **Indentation and blank lines change nothing.** -/
theorem wordLines_blanks_at_line {as bs : List Char} (has : as = [] ∨ as.getLast? = some '\n')
    (hbs : ∀ b ∈ bs, isBlank b = true) (cs : List Char) :
    wordLines (as ++ bs ++ cs) = wordLines (as ++ cs) := by
  rcases has with rfl | has
  · exact wordLines_blanks_append hbs cs
  · obtain ⟨init, rfl⟩ := List.getLast?_eq_some_iff.mp has
    rw [List.append_assoc, List.append_assoc, List.append_assoc, List.singleton_append,
      List.singleton_append, wordLines_append_feed, wordLines_append_feed,
      wordLines_blanks_append hbs]

/-- Words on the two sides of a run of blanks are told apart, whatever the blanks are. -/
theorem words_append_run {run : List Char} (hne : run ≠ [])
    (hrun : ∀ b ∈ run, isBlank b = true) (as bs : List Char) :
    words (as ++ run ++ bs) = words as ++ words bs := by
  obtain ⟨b, run', rfl⟩ := List.exists_cons_of_ne_nil hne
  rw [List.append_assoc, List.cons_append, words_append_cons (hrun b (by simp)),
    words_blanks_append (fun x hx => hrun x (List.mem_cons_of_mem _ hx))]

/-- **One run of blanks is as good as another**, as long as neither ends the line. -/
theorem wordLines_exchange {run run' : List Char} (hne : run ≠ []) (hne' : run' ≠ [])
    (hrun : ∀ b ∈ run, isBlank b = true ∧ b ≠ '\n')
    (hrun' : ∀ b ∈ run', isBlank b = true ∧ b ≠ '\n') (as bs : List Char) :
    wordLines (as ++ run ++ bs) = wordLines (as ++ run' ++ bs) := by
  have hwords : ∀ p q, words (p ++ run ++ q) = words (p ++ run' ++ q) := fun p q => by
    rw [words_append_run hne (fun b hb => (hrun b hb).1),
      words_append_run hne' (fun b hb => (hrun' b hb).1)]
  have hfeed : '\n' ∉ run := fun h => (hrun _ h).2 rfl
  have hfeed' : '\n' ∉ run' := fun h => (hrun' _ h).2 rfl
  induction as using lineInduction with
  | line line rest hline ih =>
    simp only [List.append_assoc, List.cons_append, wordLines_append_feed] at ih ⊢
    rw [ih]
  | last line hline =>
    -- the run stands on the last line of `as` and the first of `bs`
    induction bs using lineInduction with
    | last tail htail =>
      exact wordLines_congr (by simp [hline, hfeed, htail]) (by simp [hline, hfeed', htail])
        (hwords line tail)
    | line tail rest htail =>
      rw [← List.append_assoc, ← List.append_assoc, wordLines_append_feed,
        wordLines_append_feed]
      refine congrArg (· ++ wordLines rest) (wordLines_congr ?_ ?_ (hwords line tail))
      · simp [hline, hfeed, htail]
      · simp [hline, hfeed', htail]

end NnetText
