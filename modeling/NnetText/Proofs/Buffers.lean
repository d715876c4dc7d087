import NnetText.Proofs.Locality
import NnetText.Proofs.VectorGrammar

/-!
# Matrices in a buffer

A matrix can be read from lines that are pulled one by one, or from one buffer that holds all of
them. A row ends where a line does, and in a buffer this is noticed in another way: by a line feed
among the blanks behind an element. Both readers see the same words, each with whether a line feed
stands in front of it (`FedWord`), and both do the same with them but for one thing. Behind an
opening bracket that is passed over, a buffer is not looked at for a line feed, whereas the end of
the line is still met.

So the two agree on all texts in which no bracket at the end of a line is in the way (`Harmless`);
and a buffer is always read as if the lines with such a bracket went on with the next line
(`joined`).

What both readers do is said by one function on these words (`Bracketed.rowsOf`), with the
difference as a parameter. That each of them does it is proved along its own text, and the
comparison is made on the words.
-/

namespace NnetText

open LinePlace (blanksOf tokenOf)

/-! ### Words and line feeds -/

/-- **A word**, and whether a line feed stands between it and the word in front of it. -/
structure FedWord where
  fed : Bool
  word : String
deriving DecidableEq, Repr

/-- A line feed belongs to the word behind it. -/
def feed : List FedWord → List FedWord
  | [] => []
  | w :: ws => ⟨true, w.word⟩ :: ws

theorem feed_feed (ws : List FedWord) : feed (feed ws) = feed ws := by
  cases ws <;> rfl

/-- The words of some lines, one line after the other. -/
def fedWordsOf : List (List String) → List FedWord
  | [] => []
  | line :: lines => line.map (⟨false, ·⟩) ++ feed (fedWordsOf lines)

/-- **The words of a text**, with the line feeds between them. -/
def fedWords (text : List Char) : List FedWord := fedWordsOf ((linesOf text).map words)

/-- Lines without a word do not matter behind a line feed. -/
theorem feed_fedWordsOf_filter (lines : List (List String)) :
    feed (fedWordsOf (lines.filter (fun line => !line.isEmpty))) = feed (fedWordsOf lines) := by
  induction lines with
  | nil => rfl
  | cons line lines ih =>
    cases line with
    | nil => exact ih.trans (feed_feed _).symm
    | cons word line =>
      rw [List.filter_cons_of_pos rfl, fedWordsOf, fedWordsOf, ih]

/-! ### The fedWords of a text -/

/-- What has no line feed goes in front of the first line. -/
theorem linesOf_append_of_no_feed {run : List Char} (hne : run ≠ []) (h : '\n' ∉ run)
    (text : List Char) :
    linesOf (run ++ text) = (run ++ (linesOf text).headD []) :: (linesOf text).tail := by
  induction run with
  | nil => exact absurd rfl hne
  | cons c run ih =>
    have hc : c ≠ '\n' := fun hc => h (hc ▸ List.mem_cons_self)
    have hrun : '\n' ∉ run := fun hrun => h (List.mem_cons_of_mem c hrun)
    rcases eq_or_ne run [] with rfl | hne'
    · rw [List.singleton_append, linesOf, splitAfter_cons, ← linesOf]
      cases linesOf text with
      | nil => rfl
      | cons line lines => rw [consPiece, if_neg (by simpa using hc)]; rfl
    · rw [List.cons_append, linesOf, splitAfter_cons, ← linesOf, ih hne' hrun, consPiece,
        if_neg (by simpa using hc)]
      rfl

/-- The first line of a text starts as the text does. -/
theorem head?_headD_linesOf (text : List Char) :
    ((linesOf text).headD []).head? = text.head? := by
  cases text with
  | nil => rfl
  | cons c text =>
    rcases eq_or_ne c '\n' with rfl | hc
    · rw [← List.nil_append ('\n' :: text), linesOf_append_feed List.not_mem_nil]
      rfl
    · obtain ⟨line, later, hlines⟩ := linesOf_cons hc text
      rw [hlines]
      rfl

theorem fedWords_append_of_no_feed {run : List Char} (hne : run ≠ []) (h : '\n' ∉ run)
    (text : List Char) :
    fedWords (run ++ text) =
      fedWordsOf (words (run ++ (linesOf text).headD []) :: (linesOf text).tail.map words) := by
  rw [fedWords, linesOf_append_of_no_feed hne h, List.map_cons]

theorem fedWordsOf_headD (text : List Char) :
    fedWordsOf (words ((linesOf text).headD []) :: (linesOf text).tail.map words) =
      fedWords text := by
  rw [fedWords]
  cases linesOf text with
  | nil => rw [List.headD_nil, words_nil]; rfl
  | cons line lines => rfl

theorem fedWords_cons_blank {b : Char} (hb : isBlank b = true) (text : List Char) :
    fedWords (b :: text) = if b = '\n' then feed (fedWords text) else fedWords text := by
  split_ifs with hfeed
  · have hlines := linesOf_append_feed (List.not_mem_nil (a := '\n')) text
    rw [hfeed, fedWords, ← List.nil_append ('\n' :: text), hlines, List.map_cons, List.nil_append,
      words_cons_blank (by decide), words_nil]
    rfl
  · have happend := fedWords_append_of_no_feed (List.cons_ne_nil b [])
      (by simpa using Ne.symm hfeed) text
    rw [List.singleton_append, List.singleton_append, words_cons_blank hb,
      fedWordsOf_headD] at happend
    exact happend

/-- **Blanks in front of a text** do nothing, unless there is a line feed among them. -/
theorem fedWords_blanks_append {bs : List Char} (hbs : ∀ b ∈ bs, isBlank b = true)
    (text : List Char) :
    fedWords (bs ++ text) = if bs.contains '\n' then feed (fedWords text) else fedWords text := by
  induction bs with
  | nil => rfl
  | cons b bs ih =>
    obtain ⟨hb, hbs⟩ := List.forall_mem_cons.mp hbs
    rw [List.cons_append, fedWords_cons_blank hb, ih hbs, List.contains_cons]
    by_cases hfeed : b = '\n'
    · rw [if_pos hfeed, hfeed, beq_self_eq_true, Bool.true_or, if_pos rfl]
      split
      · exact feed_feed _
      · rfl
    · rw [if_neg hfeed, beq_eq_false_iff_ne.mpr (Ne.symm hfeed), Bool.false_or]

theorem fedWords_blanks {bs : List Char} (hbs : ∀ b ∈ bs, isBlank b = true) : fedWords bs = [] := by
  rw [← List.append_nil bs, fedWords_blanks_append hbs]
  split <;> rfl

/-- Blanks that are passed over leave the words, but for a line feed among them. -/
theorem fedWords_eq_dropWhile (text : List Char) :
    fedWords text = if (blanksOf text).contains '\n' then feed (fedWords (text.dropWhile isBlank))
      else fedWords (text.dropWhile isBlank) := by
  rw [← fedWords_blanks_append fun _ hb => isBlank_of_mem_blanksOf hb, blanksOf,
    List.takeWhile_append_dropWhile]

/-- A token in front of a text goes in front of its words. -/
theorem fedWords_token_append {token : String} {behind : List Char} (hne : token.toList ≠ [])
    (hsolid : ∀ c ∈ token.toList, isBlank c = false)
    (hbehind : ∀ c ∈ behind.head?, isBlank c = true) :
    fedWords (token.toList ++ behind) = ⟨false, token⟩ :: fedWords behind := by
  have hfeed : '\n' ∉ token.toList := fun hmem => absurd (hsolid _ hmem) (by decide)
  rw [fedWords_append_of_no_feed hne hfeed, words_append_of_head hne hsolid
    (by rwa [head?_headD_linesOf]), String.ofList_toList, ← fedWordsOf_headD behind]
  rfl

/-- **The first token of a text is its first word.** -/
theorem fedWords_of_starts {text behind : List Char} {token : String}
    (h : Starts text token behind) :
    fedWords text = ⟨(blanksOf text).contains '\n', token⟩ :: fedWords behind := by
  obtain ⟨⟨blanks, hblanks, rfl⟩, hne, hsolid, hbehind⟩ := h
  have hblanksOf : blanksOf (blanks ++ (token.toList ++ behind)) = blanks := by
    obtain ⟨c, cs, hcs⟩ := List.exists_cons_of_ne_nil hne
    have hc := hsolid c (hcs ▸ List.mem_cons_self)
    rw [blanksOf, List.takeWhile_append_of_pos hblanks, hcs, List.cons_append,
      List.takeWhile_cons_of_neg (by simp [hc]), List.append_nil]
  rw [fedWords_blanks_append hblanks, hblanksOf, fedWords_token_append hne hsolid hbehind]
  split
  · rename_i hcontains
    rw [hcontains]
    rfl
  · rename_i hcontains
    rw [Bool.not_eq_true] at hcontains
    rw [hcontains]

/-- The first word of a text is its first token. -/
theorem exists_starts_of_fedWords {text : List Char} {w : FedWord} {ws : List FedWord}
    (h : fedWords text = w :: ws) : ∃ behind, Starts text w.word behind ∧ fedWords behind = ws := by
  by_cases hnil : tokenOf text = []
  · rw [fedWords_blanks fun b hb => ?_] at h
    · cases h
    · rw [← blanksOf_eq_self_of_tokenOf hnil] at hb
      exact isBlank_of_mem_blanksOf hb
  · have hstarts := Starts.of_tokenOf hnil
    rw [fedWords_of_starts hstarts] at h
    obtain ⟨rfl, rfl⟩ := List.cons.inj h
    exact ⟨_, hstarts, rfl⟩

/-- Where no blank is in front, no line feed is. -/
theorem fed_head?_dropWhile (text : List Char) :
    ∀ w ∈ (fedWords (text.dropWhile isBlank)).head?, w.fed = false := by
  intro w hm
  have hhead := List.head?_dropWhile_not isBlank text
  rcases hdrop : text.dropWhile isBlank with _ | ⟨c, cs⟩
  · rw [hdrop] at hm
    cases hm
  · rw [hdrop] at hm hhead
    have hc : isBlank c = false := hhead
    have htoken : tokenOf (c :: cs) ≠ [] := by simp [tokenOf, hc]
    rw [fedWords_of_starts (Starts.of_tokenOf htoken), blanksOf,
      List.takeWhile_cons_of_neg (by simp [hc])] at hm
    obtain rfl := Option.some.inj hm
    rfl

/-! ### What is done with words -/

/-- A result without the place of its error. -/
def placeless {α : Type} (r : Except ParseError α) : Except ParseError α :=
  r.mapError (ParseError.mapPlace fun _ => default)

namespace Bracketed

/-- A word that is due as an element: it closes the matrix, or the rows go on behind it. -/
def takeWord (limit : Nat) (found : RowsFound) (word : String)
    (next : RowsFound → Except ParseError (Matrix Single)) : Except ParseError (Matrix Single) :=
  if word = "]" then finish found default
  else if limit ≤ found.count then .error (.tooManyElements .matrix limit default)
  else (Scalar.float .single word default).bind fun x => next (found.push x)

/-- **The rows of a matrix, word by word**; `passed` says whether a bracket has just been passed
over. A line feed ends the row, and makes an end of the passed bracket too. Only if `strict` is
not set, a line feed right behind a passed bracket is no more than a blank. -/
def rowsOf (limit : Nat) (strict : Bool) :
    Bool → RowsFound → List FedWord → Except ParseError (Matrix Single)
  | _, _, [] => .error (.unterminatedMatrix default)
  | passed, found, w :: ws =>
    let ends := w.fed && (strict || !passed)
    let found := if ends then found.endRow else found
    if w.word = "[" ∧ (ends = true ∨ passed = false) then rowsOf limit strict true found ws
    else takeWord limit found w.word fun found => rowsOf limit strict false found ws

section Words

variable {limit : Nat} {strict passed : Bool} {found : RowsFound} {w : FedWord} {ws : List FedWord}

/-- A line feed that counts ends the row, and everything goes on as on a new line. -/
theorem rowsOf_feed (h : strict = true ∨ passed = false) :
    rowsOf limit strict passed found (feed ws) = rowsOf limit strict false found.endRow ws := by
  cases ws with
  | nil => rfl
  | cons w ws =>
    have hends : (strict || !passed) = true := by
      rcases h with rfl | rfl
      · rfl
      · exact Bool.or_true _
    rw [feed, rowsOf, rowsOf]
    simp only [hends, Bool.not_false, Bool.or_true, Bool.and_true, if_true, true_or,
      and_true, or_true]
    cases w.fed with
    | false => rfl
    | true => simp only [if_true, RowsFound.endRow_endRow]

/-- Where no bracket has been passed over, a line feed counts. -/
theorem rowsOf_cons :
    rowsOf limit strict false found (w :: ws) =
      if w.word = "[" then
        rowsOf limit strict true (if w.fed then found.endRow else found) ws
      else
        takeWord limit (if w.fed then found.endRow else found) w.word
          fun found => rowsOf limit strict false found ws := by
  rw [rowsOf]
  simp only [Bool.not_false, Bool.or_true, Bool.and_true, or_true, and_true]

/-- The word behind a passed bracket is taken, whatever it is. -/
theorem rowsOf_passed (h : strict = true → w.fed = false) :
    rowsOf limit strict true found (w :: ws) =
      takeWord limit found w.word fun found => rowsOf limit strict false found ws := by
  have hends : (w.fed && (strict || !true)) = false := by
    cases strict with
    | false => exact Bool.and_false _
    | true => rw [h rfl]; rfl
  rw [rowsOf]
  simp only [hends, Bool.false_eq_true, if_false, or_self, and_false, reduceCtorEq]

end Words

/-! ### What the readers do -/

section Readers

variable {limit : Nat} {start : Position} {found : RowsFound}

theorem placeless_finish (found : RowsFound) (place : Position) :
    placeless (finish found place) = finish found default := by
  rw [finish, finish]
  cases Matrix.ofRows found.toList <;> rfl

/-- **An element that is met is taken**, if the reader goes on behind it as it should. -/
theorem placeless_rows_of_token {c d : Cursor} {token : String}
    {next : RowsFound → Except ParseError (Matrix Single)} (h : elementToken c = (some token, d))
    (hnext : ∀ x, placeless (rows limit start
      (if d.skipBlanks.1 then (found.push x).endRow else found.push x) d.skipBlanks.2).1 =
        next (found.push x)) :
    placeless (rows limit start found c).1 = takeWord limit found token next := by
  rw [rows_eq, takeWord]
  simp only [h]
  by_cases hclose : token = "]"
  · rw [if_pos hclose, if_pos hclose]
    exact placeless_finish found d.position
  · rw [if_neg hclose, if_neg hclose]
    by_cases hlimit : limit ≤ found.count
    · rw [if_pos hlimit, if_pos hlimit]
      rfl
    · rw [if_neg hlimit, if_neg hlimit, Scalar.float, Scalar.float]
      cases Format.single.parse token with
      | error fault => rfl
      | ok x => exact hnext x

/-- Without a token and without another line, the matrix does not come to its end. -/
theorem placeless_rows_of_none {c d : Cursor} (h : elementToken c = (none, d))
    (hpending : d.pending = []) :
    placeless (rows limit start found c).1 = .error (.unterminatedMatrix default) := by
  simp only [rows_eq, h, Cursor.advance_of_nil hpending]
  rfl

/-- **A buffer is read word by word**, and what is passed over is not looked at for line feeds. -/
theorem placeless_rows_of_buffer {c : Cursor} (hc : c.pending = [])
    (hfed : ∀ w ∈ (fedWords c.lineRest).head?, w.fed = true → found.endRow = found) :
    placeless (rows limit start found c).1 =
      rowsOf limit false false found (fedWords c.lineRest) := by
  induction hn : c.remaining using Nat.strongRecOn generalizing c found with
  | _ n ih =>
    -- behind an element, the blanks up to the next one are passed over
    have hnext : ∀ {e : Cursor} (x : Single), e.pending = [] → e.remaining < n →
        placeless (rows limit start
          (if e.skipBlanks.1 then (found.push x).endRow else found.push x) e.skipBlanks.2).1 =
        rowsOf limit false false (found.push x) (fedWords e.lineRest) := by
      intro e x he hlt
      obtain ⟨hfeed, hrest⟩ := e.skipBlanks_lineRest
      have hhead : ∀ w ∈ (fedWords e.skipBlanks.2.lineRest).head?, w.fed = false := by
        rw [hrest]
        exact fed_head?_dropWhile e.lineRest
      rw [ih _ (Nat.lt_of_le_of_lt e.remaining_skipBlanks_le hlt) (c := e.skipBlanks.2) he
          (fun w hm hfed => absurd (hhead w hm) (by simp [hfed])) rfl,
        fedWords_eq_dropWhile e.lineRest, ← hrest, ← hfeed]
      cases e.skipBlanks.1 with
      | false => rfl
      | true =>
        rw [if_pos rfl, if_pos rfl]
        exact (rowsOf_feed (Or.inr rfl)).symm
    rcases htoken : c.nextToken with ⟨_ | token, d⟩
    · have hblank := (Cursor.blank_of_nextToken_none htoken).1
      rw [fedWords_blanks hblank, placeless_rows_of_none (elementToken_of_ne htoken (by simp))
        ((Cursor.pending_of_nextToken htoken).trans hc)]
      rfl
    · have hd : d.pending = [] := (Cursor.pending_of_nextToken htoken).trans hc
      have hlt : d.remaining < n := hn ▸ Cursor.remaining_nextToken_lt htoken
      have hwords := fedWords_of_starts (Cursor.starts_of_nextToken htoken)
      rw [hwords] at hfed ⊢
      rw [rowsOf_cons, ite_eq_right_iff.mpr (hfed _ rfl)]
      dsimp only
      split_ifs with hopen
      · subst hopen
        rcases htoken' : d.nextToken with ⟨_ | token', e⟩
        · have hblank := (Cursor.blank_of_nextToken_none htoken').1
          rw [fedWords_blanks hblank,
            placeless_rows_of_none ((elementToken_of_open htoken).trans htoken')
              ((Cursor.pending_of_nextToken htoken').trans hd)]
          rfl
        · rw [fedWords_of_starts (Cursor.starts_of_nextToken htoken'),
            rowsOf_passed (fun h => Bool.noConfusion h)]
          exact placeless_rows_of_token ((elementToken_of_open htoken).trans htoken') fun x =>
            hnext x ((Cursor.pending_of_nextToken htoken').trans hd)
              (Nat.lt_trans (Cursor.remaining_nextToken_lt htoken') hlt)
      · exact placeless_rows_of_token (elementToken_of_ne htoken (by simpa using hopen)) fun x =>
          hnext x hd hlt

/-- A token of the line is a word that no line feed stands in front of. -/
theorem fedWordsOf_of_nextToken {c d : Cursor} {token : String}
    (h : c.nextToken = (some token, d)) :
    fedWordsOf (c.lineWords :: c.laterWords) =
      ⟨false, token⟩ :: fedWordsOf (d.lineWords :: d.laterWords) := by
  rw [Cursor.lineWords_of_nextToken h, Cursor.laterWords_of_nextToken h]
  rfl

/-- **Lines are read word by word**, and each of them ends the row and the passed bracket. -/
theorem placeless_rows_of_lines {c : Cursor} (hc : c.Orderly) :
    placeless (rows limit start found c).1 =
      rowsOf limit true false found (fedWordsOf (c.lineWords :: c.laterWords)) := by
  induction hn : c.remaining using Nat.strongRecOn generalizing c found with
  | _ n ih =>
    -- behind an element, a line feed among the blanks is the end of the line
    have hnext : ∀ {e : Cursor} (x : Single), e.Orderly → e.remaining < n →
        placeless (rows limit start
          (if e.skipBlanks.1 then (found.push x).endRow else found.push x) e.skipBlanks.2).1 =
        rowsOf limit true false (found.push x) (fedWordsOf (e.lineWords :: e.laterWords)) := by
      intro e x he hlt
      rw [ih _ (Nat.lt_of_le_of_lt e.remaining_skipBlanks_le hlt)
        (e.moves_skipBlanks.orderly he) rfl, e.lineWords_skipBlanks,
        show e.skipBlanks.2.laterWords = e.laterWords from rfl]
      cases hfeed : e.skipBlanks.1 with
      | false => rfl
      | true =>
        rw [if_pos rfl, he.feedsLast.lineWords_of_skipBlanks hfeed, fedWordsOf, List.map_nil,
          List.nil_append, rowsOf_feed (Or.inl rfl), rowsOf_feed (Or.inl rfl),
          RowsFound.endRow_endRow]
    -- a line that ends without another element
    have hend : ∀ {d : Cursor} {passed : Bool}, elementToken c = (none, d) →
        placeless (rows limit start found c).1 =
          rowsOf limit true passed found (feed (fedWordsOf c.laterWords)) := by
      intro d passed hd
      rcases rows_of_line_end limit start found hc hd with
        ⟨hnil, e, hrows⟩ | ⟨e, he, hlater, hlt, hrows⟩
      · rw [hrows, hnil]
        rfl
      · rw [hrows, ih _ (hn ▸ hlt) he rfl, hlater, rowsOf_feed (Or.inl rfl)]
    rcases htoken : c.nextToken with ⟨_ | token, d⟩
    · rw [(Cursor.lineWords_eq_nil_of_nextToken htoken).1]
      exact hend (elementToken_of_ne htoken (by simp))
    · have hd : d.Orderly := (c.moves_nextToken.of_eq htoken).orderly hc
      have hlt : d.remaining < n := hn ▸ Cursor.remaining_nextToken_lt htoken
      rw [fedWordsOf_of_nextToken htoken, rowsOf_cons, if_neg Bool.false_ne_true]
      dsimp only
      split_ifs with hopen
      · subst hopen
        rcases htoken' : d.nextToken with ⟨_ | token', e⟩
        · rw [(Cursor.lineWords_eq_nil_of_nextToken htoken').1,
            Cursor.laterWords_of_nextToken htoken]
          exact hend ((elementToken_of_open htoken).trans htoken')
        · rw [fedWordsOf_of_nextToken htoken', rowsOf_passed (fun _ => rfl)]
          exact placeless_rows_of_token ((elementToken_of_open htoken).trans htoken') fun x =>
            hnext x ((d.moves_nextToken.of_eq htoken').orderly hd)
              (Nat.lt_trans (Cursor.remaining_nextToken_lt htoken') hlt)
      · exact placeless_rows_of_token (elementToken_of_ne htoken (by simpa using hopen)) fun x =>
          hnext x hd hlt

end Readers

/-! ### The two readers compared -/

/-- The line feeds right behind opening brackets are taken away, so that their lines go on with the
next line. -/
def joined : Bool → List FedWord → List FedWord
  | _, [] => []
  | behind, w :: ws => ⟨w.fed && !behind, w.word⟩ :: joined (w.word = "[") ws

/-- **Every text has one that lacks these line feeds**, with its words behind one blank each. -/
theorem exists_joined (behind : Bool) (text : List Char) :
    ∃ lined, (∀ b ∈ lined.head?, isBlank b = true) ∧
      fedWords lined = joined behind (fedWords text) := by
  induction hwords : fedWords text generalizing behind text with
  | nil => exact ⟨[], fun b hb => (Option.not_mem_none b hb).elim, rfl⟩
  | cons w ws ih =>
    obtain ⟨rest, hstarts, hrest⟩ := exists_starts_of_fedWords hwords
    obtain ⟨lined, hlined, heq⟩ := ih (w.word = "[") rest hrest
    refine ⟨(if w.fed && !behind then '\n' else ' ') :: (w.word.toList ++ lined), ?_, ?_⟩
    · intro b hb
      obtain rfl := Option.some.inj hb
      split <;> decide
    · rw [fedWords_cons_blank (by split <;> decide),
        fedWords_token_append hstarts.ne_nil hstarts.solid hlined, heq, joined]
      cases w.fed && !behind <;> rfl

/-- **No bracket at the end of a line is in the way** up to the closing bracket: it stands in
front of that, or it has its line for itself and no bracket follows it. `alone` says whether the
first word has no element in front of it, although there may be no line feed. -/
def Harmless : Bool → List FedWord → Prop
  | _, [] => True
  | alone, w :: ws =>
    w.word = "]" ∨
      (w.word = "[" → ∀ n ∈ ws.head?, n.fed = true →
        n.word = "]" ∨ ((alone = true ∨ w.fed = true) ∧ n.word ≠ "[")) ∧ Harmless false ws

instance decidableHarmless : ∀ (alone : Bool) (ws : List FedWord), Decidable (Harmless alone ws)
  | _, [] => inferInstanceAs (Decidable True)
  | alone, w :: ws =>
    have := decidableHarmless false ws
    inferInstanceAs (Decidable (w.word = "]" ∨
      (w.word = "[" → ∀ n ∈ ws.head?, n.fed = true →
        n.word = "]" ∨ ((alone = true ∨ w.fed = true) ∧ n.word ≠ "[")) ∧ Harmless false ws))

section Comparison

variable {limit : Nat} {found : RowsFound} {ws : List FedWord}

/-- A row that has been ended fits as it did before. -/
theorem finish_endRow (found : RowsFound) (place : Position) :
    finish found.endRow place = finish found place := by
  rw [finish, finish, RowsFound.toList, RowsFound.toList, RowsFound.endRow_endRow]

/-- **A word that is taken alike** leads to the same, if what follows does for every row that has
got an element. -/
theorem takeWord_congr {word : String}
    {next next' : RowsFound → Except ParseError (Matrix Single)}
    (h : word ≠ "]" → ∀ x, Format.single.parse word = .ok x →
      next (found.push x) = next' (found.push x)) :
    takeWord limit found word next = takeWord limit found word next' := by
  rw [takeWord, takeWord]
  by_cases hclose : word = "]"
  · rw [if_pos hclose, if_pos hclose]
  · rw [if_neg hclose, if_neg hclose, Scalar.float]
    cases hx : Format.single.parse word with
    | error fault => rfl
    | ok x =>
      split
      · rfl
      · exact h hclose x hx

/-- **A buffer is read as if lines with a bracket at the end went on.** -/
theorem rowsOf_joined (passed : Bool) :
    rowsOf limit false passed found ws = rowsOf limit true passed found (joined passed ws) := by
  induction ws generalizing passed found with
  | nil => rfl
  | cons w ws ih =>
    cases passed with
    | false =>
      rw [joined, rowsOf_cons, rowsOf_cons, Bool.not_false, Bool.and_true]
      dsimp only
      by_cases hopen : w.word = "["
      · rw [if_pos hopen, if_pos hopen, ih, decide_eq_true hopen]
      · rw [if_neg hopen, if_neg hopen, decide_eq_false hopen]
        exact takeWord_congr fun _ x _ => ih false
    | true =>
      rw [joined, rowsOf_passed (fun h => Bool.noConfusion h),
        rowsOf_passed (fun _ => Bool.and_false _)]
      refine takeWord_congr fun _ x hx => ?_
      -- a second bracket is no number
      have hopen : w.word ≠ "[" := by
        intro hopen
        rw [hopen] at hx
        cases hx
      rw [decide_eq_false hopen]
      exact ih false

/-- **Where no bracket is in the way**, line feeds behind brackets can be looked at or not. The
second half is about the word behind a passed bracket: if a line feed stands in front of it, it
has to close the matrix, or no row is there to be ended. -/
theorem rowsOf_harmless (limit : Nat) (ws : List FedWord) :
    (∀ {alone found}, (alone = true → found.endRow = found) → Harmless alone ws →
      rowsOf limit false false found ws = rowsOf limit true false found ws) ∧
    ∀ {found}, (∀ w ∈ ws.head?, w.fed = true →
        w.word = "]" ∨ (found.endRow = found ∧ w.word ≠ "[")) → Harmless false ws →
      rowsOf limit false true found ws = rowsOf limit true true found ws := by
  induction ws with
  | nil => exact ⟨fun _ _ => rfl, fun _ _ => rfl⟩
  | cons w ws ih =>
    have hafter : ∀ {alone}, Harmless alone (w :: ws) → w.word ≠ "]" → Harmless false ws :=
      fun h hclose => (h.resolve_left hclose).2
    refine ⟨fun halone h => ?_, fun {found} hhead h => ?_⟩
    · rw [rowsOf_cons, rowsOf_cons]
      by_cases hopen : w.word = "["
      · have hclose : w.word ≠ "]" := by
          rw [hopen]
          decide
        rw [if_pos hopen, if_pos hopen]
        refine ih.2 (fun n hn hfed => ?_) (hafter h hclose)
        rcases (h.resolve_left hclose).1 hopen n hn hfed with hn' | ⟨hrow, hn'⟩
        · exact Or.inl hn'
        · refine Or.inr ⟨?_, hn'⟩
          split
          · exact RowsFound.endRow_endRow _
          · rename_i hnot
            exact halone (hrow.resolve_right hnot)
      · rw [if_neg hopen, if_neg hopen]
        exact takeWord_congr fun hclose x _ =>
          ih.1 (fun h => Bool.noConfusion h) (hafter h hclose)
    · have hnext : w.word ≠ "]" → ∀ x, rowsOf limit false false (found.push x) ws =
          rowsOf limit true false (found.push x) ws :=
        fun hclose x => ih.1 (fun h => Bool.noConfusion h) (hafter h hclose)
      rw [rowsOf_passed (fun h => Bool.noConfusion h)]
      cases hfed : w.fed with
      | false =>
        rw [rowsOf_passed (fun _ => hfed)]
        exact takeWord_congr fun hclose x _ => hnext hclose x
      | true =>
        have hfeed : w :: ws = feed (⟨false, w.word⟩ :: ws) := by rw [feed, ← hfed]
        rw [hfeed, rowsOf_feed (Or.inl rfl), rowsOf_cons, if_neg Bool.false_ne_true]
        rcases hhead w rfl hfed with hclose | ⟨hrow, hopen⟩
        · rw [hclose, if_neg (by decide), takeWord, takeWord, if_pos rfl, if_pos rfl,
            finish_endRow]
        · rw [hrow, if_neg hopen]
          exact takeWord_congr fun hclose x _ => hnext hclose x

end Comparison

/-! ### Texts -/

section Texts

variable {text : List Char} {ws : List FedWord}

theorem RowsFound.endRow_none : RowsFound.none.endRow = .none := rfl

theorem matrix_of_open (limits : Limits) {c d : Cursor} (h : c.nextToken = (some "[", d)) :
    matrix limits c = rows limits.tensorElements c.position .none d := by
  simp only [matrix, openBracket, h]

/-- A matrix in a buffer. -/
theorem placeless_matrix_within (limits : Limits) (h : fedWords text = ⟨false, "["⟩ :: ws) :
    placeless (matrix limits (.within text 0 [])).1 =
      rowsOf limits.tensorElements false false .none ws := by
  obtain ⟨behind, hstarts, rfl⟩ := exists_starts_of_fedWords h
  have hrest : (Cursor.within text 0 []).lineRest = text := by
    simp [Cursor.lineRest, Cursor.within, LinePlace.ofOffset]
  rw [← hrest] at hstarts
  obtain ⟨htoken, hbehind⟩ := Cursor.nextToken_of_starts hstarts
  rw [matrix_of_open limits htoken, placeless_rows_of_buffer rfl (fun _ _ _ => rfl), hbehind]

/-- A matrix on lines. -/
theorem placeless_matrix_ofText (limits : Limits) (h : fedWords text = ⟨false, "["⟩ :: ws) :
    placeless (matrix limits (Cursor.ofText text).advance.2).1 =
      rowsOf limits.tensorElements true false .none ws := by
  have horderly : (Cursor.ofText text).advance.2.Orderly :=
    (Cursor.ofText text).moves_advance.orderly (Cursor.orderly_ofText text)
  have hwords : fedWordsOf ((Cursor.ofText text).advance.2.lineWords ::
      (Cursor.ofText text).advance.2.laterWords) = fedWords text := by
    rcases hlines : linesOf text with _ | ⟨line, lines⟩
    · rw [fedWords, hlines] at h
      cases h
    · have hadvance : (Cursor.ofText text).advance.2.lineWords = words line ∧
          (Cursor.ofText text).advance.2.laterWords =
            (lines.map words).filter (fun line => !line.isEmpty) := by
        rw [Cursor.ofText, ofText_eq_map_linesOf, hlines, Cursor.laterWords]
        refine ⟨rfl, ?_⟩
        change ((lines.map SourceLine.text).map SourceLine.words).filter _ = _
        rw [List.map_map]
        rfl
      rw [hadvance.1, hadvance.2, fedWords, hlines, List.map_cons, fedWordsOf, fedWordsOf,
        feed_fedWordsOf_filter]
  rw [h] at hwords
  generalize (Cursor.ofText text).advance.2 = c at horderly hwords ⊢
  rcases htoken : c.nextToken with ⟨_ | token, d⟩
  · rw [(Cursor.lineWords_eq_nil_of_nextToken htoken).1, fedWordsOf, List.map_nil,
      List.nil_append] at hwords
    cases hlater : fedWordsOf c.laterWords with
    | nil =>
      rw [hlater] at hwords
      cases hwords
    | cons w ws' =>
      rw [hlater] at hwords
      cases hwords
  · rw [fedWordsOf_of_nextToken htoken] at hwords
    obtain ⟨hword, rfl⟩ := List.cons.inj hwords
    obtain ⟨-, rfl⟩ := FedWord.mk.inj hword
    rw [matrix_of_open limits htoken,
      placeless_rows_of_lines ((c.moves_nextToken.of_eq htoken).orderly horderly)]

/-- **A matrix in a buffer and on lines.** If the first line of a text starts with an opening
bracket, a matrix is read from the text as one buffer with the same result as from its lines,
places apart, unless a bracket at the end of a line is in the way; and always with the result that
is read from the lines of a text that lacks the line feeds behind opening brackets. There is such a
text for every text. -/
theorem matrix_of_buffer (limits : Limits) (h : fedWords text = ⟨false, "["⟩ :: ws) :
    (Harmless true ws →
      placeless (matrix limits (.within text 0 [])).1 =
        placeless (matrix limits (Cursor.ofText text).advance.2).1) ∧
    (∃ lined, fedWords lined = joined false (fedWords text)) ∧
    ∀ lined, fedWords lined = joined false (fedWords text) →
      placeless (matrix limits (.within text 0 [])).1 =
        placeless (matrix limits (Cursor.ofText lined).advance.2).1 := by
  rw [placeless_matrix_within limits h]
  refine ⟨fun hharmless => ?_, ?_, fun lined hlined => ?_⟩
  · rw [placeless_matrix_ofText limits h]
    exact (rowsOf_harmless _ ws).1 (fun _ => rfl) hharmless
  · obtain ⟨lined, -, hlined⟩ := exists_joined false text
    exact ⟨lined, hlined⟩
  · rw [h] at hlined
    rw [placeless_matrix_ofText limits hlined, rowsOf_joined]
    cases ws with
    | nil => rfl
    | cons w ws =>
      rw [joined, joined, rowsOf_cons, rowsOf_cons]
      simp only [RowsFound.endRow_none, ite_self]

end Texts

/-- A row that is broken behind a bracket. -/
def brokenRow : List Char := "[ 1 [\n2 ]".toList

/-- **A line feed behind a bracket does not end the row of a buffer.** One row is read from the
buffer, and two rows are read from the lines. -/
theorem matrix_of_brokenRow :
    fedWords brokenRow =
      [⟨false, "["⟩, ⟨false, "1"⟩, ⟨false, "["⟩, ⟨true, "2"⟩, ⟨false, "]"⟩] ∧
    (matrix .standard (.within brokenRow 0 [])).1 =
      .ok ⟨2, 1, [⟨0x3f800000⟩, ⟨0x40000000⟩], rfl⟩ ∧
    (matrix .standard (Cursor.ofText brokenRow).advance.2).1 =
      .ok ⟨1, 2, [⟨0x3f800000⟩, ⟨0x40000000⟩], rfl⟩ := by
  refine ⟨rfl, ?_, ?_⟩
  · decide +kernel
  · decide +kernel

/-- The same words with the bracket in the middle of its line. -/
def joinedRow : List Char := "[ 1 [ 2 ]".toList

/-- Brackets at the end of a line and in front of a row, none of them in the way. -/
def bracketedRows : List Char := "[ [\n1 2\n[ 3 4 [\n]".toList

/-- The first text is read alike from a buffer and from lines, and the second as if it were the
third. -/
theorem matrix_of_buffer_bracketedRows :
    Harmless true (fedWords bracketedRows).tail ∧
    placeless (matrix .standard (.within bracketedRows 0 [])).1 =
      placeless (matrix .standard (Cursor.ofText bracketedRows).advance.2).1 ∧
    fedWords joinedRow = joined false (fedWords brokenRow) ∧
    placeless (matrix .standard (.within brokenRow 0 [])).1 =
      placeless (matrix .standard (Cursor.ofText joinedRow).advance.2).1 := by
  have hharmless : Harmless true (fedWords bracketedRows).tail := by decide
  have hjoined : fedWords joinedRow = joined false (fedWords brokenRow) := rfl
  exact ⟨hharmless, (matrix_of_buffer .standard rfl).1 hharmless, hjoined,
    (matrix_of_buffer .standard rfl).2.2 joinedRow hjoined⟩

end Bracketed

end NnetText
