import Mathlib.Data.List.Forall2
import NnetText.Proofs.Ahead
import NnetText.Proofs.Correspondence
import NnetText.Proofs.Decimals

/-!
# The grammar of vectors

Which vectors can be read, what they are read as and what is said about the others is settled by
the tokens ahead. `Bracketed.IsVector` says it for those that can be read: an opening bracket on
the current line, tokens that pass, no more of them than allowed, a closing bracket.
`Bracketed.VectorFault` says it for the others, by the first token that stands in the way; one
token too many is a fault before it is looked at. The two leave nothing out and do not overlap, so
that reading does exactly what they say (`Bracketed.vector_grammar`).

The argument has two halves. Tokens that pass are run over one by one
(`Bracketed.elements_of_passed`), so that whatever comes behind them decides; and among the tokens
ahead there is always a first that does not pass, or none (`Bracketed.exists_passed`).

In particular, integers that are written down are read back: the layout is free, since only the
words of a text are ahead, and a decimal numeral is read as its number (`Integer.parse_toString`).
-/

namespace NnetText

/-! ### What settles a reading -/

/-- **A reading is settled** by conditions for its success and its failure that fit it and of which
one always holds. -/
theorem Reading.settled {α : Type} {r : Reading α} {accepts : α → Cursor → Prop}
    {faults : ParseError → Prop} (hok : ∀ {x d}, accepts x d → r = (.ok x, d))
    (herror : ∀ {e}, faults e → r.1 = .error e)
    (hcases : (∃ x d, accepts x d) ∨ ∃ e, faults e) :
    (∀ x d, r = (.ok x, d) ↔ accepts x d) ∧ ∀ e, r.1 = .error e ↔ faults e := by
  refine ⟨fun x d => ⟨fun h => ?_, hok⟩, fun e => ⟨fun h => ?_, herror⟩⟩
  · rcases hcases with ⟨x', d', haccepts⟩ | ⟨e, hfaults⟩
    · obtain ⟨hx, rfl⟩ := Prod.mk.inj (h.symm.trans (hok haccepts))
      obtain rfl := Except.ok.inj hx
      exact haccepts
    · cases (congrArg Prod.fst h).symm.trans (herror hfaults)
  · rcases hcases with ⟨x', d', haccepts⟩ | ⟨e', hfaults⟩
    · cases h.symm.trans (congrArg Prod.fst (hok haccepts))
    · obtain rfl := Except.error.inj (h.symm.trans (herror hfaults))
      exact hfaults

/-- **An opening bracket is next on the line**, and `lines` are the tokens behind it, line by
line. -/
def Cursor.OpensLines (c : Cursor) (lines : List (List Sighting)) : Prop :=
  ∃ d line, c.lineAhead = ("[", d) :: line ∧ lines = line :: c.laterAhead

/-- **An opening bracket is next on the line**, and `ahead` is what stands behind it, on whatever
lines. -/
def Cursor.Opens (c : Cursor) (ahead : List Sighting) : Prop :=
  ∃ lines, c.OpensLines lines ∧ ahead = lines.flatten

namespace Bracketed

/-- **No opening bracket is next on the line**: the line has ended, or something else is. -/
inductive Unopened (c : Cursor) : ParseError → Prop
  | missing (h : c.lineAhead = []) :
      Unopened c (.expectedOpenBracket "end of line"
        ⟨c.lineNumber, c.offset + byteSize (c.place.rest.getD [])⟩)
  | other {token : String} {d : Cursor} {line : List Sighting}
      (h : c.lineAhead = (token, d) :: line) (hne : token ≠ "[") :
      Unopened c (.expectedOpenBracket token d.position)

theorem opens_or_unopened (c : Cursor) : (∃ lines, c.OpensLines lines) ∨ ∃ e, Unopened c e := by
  rcases h : c.lineAhead with _ | ⟨⟨token, d⟩, line⟩
  · exact Or.inr ⟨_, .missing h⟩
  · by_cases hopen : token = "["
    · subst hopen
      exact Or.inl ⟨_, d, line, h, rfl⟩
    · exact Or.inr ⟨_, .other h hopen⟩

/-- An opening bracket is passed over. -/
theorem openBracket_of_lineAhead {c d : Cursor} {line : List Sighting}
    (h : c.lineAhead = ("[", d) :: line) :
    openBracket c = (.ok c.position, d) ∧ d.lineAhead = line ∧ d.laterAhead = c.laterAhead := by
  obtain ⟨hnext, hline⟩ := Cursor.nextToken_of_lineAhead h
  refine ⟨?_, hline, Cursor.laterAhead_of_nextToken hnext⟩
  rw [openBracket, hnext]
  rfl

theorem Unopened.exists_openBracket {c : Cursor} {e : ParseError} (h : Unopened c e) :
    ∃ d, openBracket c = (.error e, d) := by
  cases h with
  | missing h =>
    obtain ⟨d, hnext, -, hplace⟩ := Cursor.nextToken_of_lineAhead_nil h
    refine ⟨d, ?_⟩
    rw [openBracket_of_ne hnext (by simp), hplace]
    rfl
  | @other token d line h hne =>
    obtain ⟨hnext, -⟩ := Cursor.nextToken_of_lineAhead h
    refine ⟨d, ?_⟩
    rw [openBracket_of_ne hnext (by simpa using hne)]
    rfl

/-! ### Vectors -/

variable {α : Type} {limit : Nat} {judge : String → Position → Except ParseError α}

/-- **Tokens pass as the elements of a vector**: none of them closes it, and each is judged, with
the place behind it, to be an element. -/
structure Passed (judge : String → Position → Except ParseError α) (tokens : List Sighting)
    (xs : List α) : Prop where
  unclosed : ∀ t ∈ tokens, t.1 ≠ "]"
  judged : List.Forall₂ (fun t x => judge t.1 t.2.position = .ok x) tokens xs

/-- **A vector stands ahead**, with the given elements; `d` is the cursor just behind it. -/
def IsVector (limit : Nat) (judge : String → Position → Except ParseError α) (c : Cursor)
    (xs : List α) (d : Cursor) : Prop :=
  ∃ tokens after, c.Opens (tokens ++ ("]", d) :: after) ∧ Passed judge tokens xs ∧
    tokens.length ≤ limit

/-- **What stands in the way of a vector**, in the order of the tokens. -/
inductive VectorFault (limit : Nat) (judge : String → Position → Except ParseError α)
    (c : Cursor) : ParseError → Prop
  /-- There is no opening bracket. -/
  | unopened {e : ParseError} (h : Unopened c e) : VectorFault limit judge c e
  /-- Behind as many elements as allowed stands something else than a closing bracket. -/
  | tooMany {tokens after : List Sighting} {xs : List α} {t : Sighting}
      (h : c.Opens (tokens ++ t :: after)) (passed : Passed judge tokens xs)
      (full : tokens.length = limit) (unclosed : t.1 ≠ "]") :
      VectorFault limit judge c (.tooManyElements .vector limit c.position)
  /-- Behind fewer elements stands a token that is none. -/
  | refused {tokens after : List Sighting} {xs : List α} {t : Sighting} {e : ParseError}
      (h : c.Opens (tokens ++ t :: after)) (passed : Passed judge tokens xs)
      (room : tokens.length < limit) (unclosed : t.1 ≠ "]")
      (fault : judge t.1 t.2.position = .error e) : VectorFault limit judge c e
  /-- The input ends behind the elements. -/
  | unterminated {tokens : List Sighting} {xs : List α} (h : c.Opens tokens)
      (passed : Passed judge tokens xs) (room : tokens.length ≤ limit) :
      VectorFault limit judge c (.unterminatedVector c.position)

theorem passed_nil (judge : String → Position → Except ParseError α) : Passed judge [] [] :=
  ⟨fun _ h => (List.not_mem_nil h).elim, .nil⟩

theorem Passed.cons {t : Sighting} {x : α} {tokens : List Sighting} {xs : List α}
    (h : Passed judge tokens xs) (hne : t.1 ≠ "]") (hx : judge t.1 t.2.position = .ok x) :
    Passed judge (t :: tokens) (x :: xs) :=
  ⟨List.forall_mem_cons.mpr ⟨hne, h.unclosed⟩, .cons hx h.judged⟩

/-- **Elements are run over**: behind tokens that pass, reading goes on with what stands there. -/
theorem elements_of_passed {tokens rest : List Sighting} {xs found : List α} {c : Cursor}
    (start : Position) (h : c.ahead = tokens ++ rest) (hpassed : Passed judge tokens xs)
    (hroom : found.length + tokens.length ≤ limit) :
    ∃ d : Cursor, d.ahead = rest ∧
      elements limit judge start found c = elements limit judge start (xs.reverse ++ found) d := by
  obtain ⟨hunclosed, hjudged⟩ := hpassed
  induction hjudged generalizing c found with
  | nil => exact ⟨c, h, rfl⟩
  | @cons t x tokens xs hx hjudged ih =>
    obtain ⟨hpull, hahead⟩ := Cursor.pull_of_ahead h
    have hne : t.1 ≠ "]" := hunclosed t List.mem_cons_self
    have hmore : (x :: found).length + tokens.length ≤ limit := by
      simp only [List.length_cons] at hroom ⊢
      omega
    rw [List.length_cons] at hroom
    obtain ⟨d, hd, helements⟩ :=
      ih hahead hmore fun s hs => hunclosed s (List.mem_cons_of_mem _ hs)
    refine ⟨d, hd, ?_⟩
    rw [elements_eq, hpull]
    dsimp only
    rw [if_neg hne, if_neg (by omega), hx]
    dsimp only
    rw [helements, List.reverse_cons, List.append_assoc, List.singleton_append]

/-- Behind an opening bracket, tokens that pass are run over. -/
theorem vector_of_passed {limits : Limits} {tokens rest : List Sighting} {xs : List α}
    {c : Cursor} (h : c.Opens (tokens ++ rest)) (hpassed : Passed judge tokens xs)
    (hroom : tokens.length ≤ limits.tensorElements) :
    ∃ d : Cursor, d.ahead = rest ∧
      vector limits judge c = elements limits.tensorElements judge c.position xs.reverse d := by
  obtain ⟨lines, ⟨e, line, hline, rfl⟩, hahead⟩ := h
  obtain ⟨hopen, hline', hlater⟩ := openBracket_of_lineAhead hline
  have he : e.ahead = tokens ++ rest := by
    rw [Cursor.ahead, hline', hlater, hahead, List.flatten_cons]
  have hroom' : ([] : List α).length + tokens.length ≤ limits.tensorElements := by
    simpa using hroom
  obtain ⟨d, hd, helements⟩ := elements_of_passed c.position he hpassed hroom'
  refine ⟨d, hd, ?_⟩
  rw [vector, hopen]
  rw [List.append_nil] at helements
  exact helements

theorem vector_of_isVector {limits : Limits} {c d : Cursor} {xs : List α}
    (h : IsVector limits.tensorElements judge c xs d) : vector limits judge c = (.ok xs, d) := by
  obtain ⟨tokens, after, hopens, hpassed, hroom⟩ := h
  obtain ⟨e, he, hvector⟩ := vector_of_passed hopens hpassed hroom
  obtain ⟨hpull, -⟩ := Cursor.pull_of_ahead he
  rw [hvector, elements_eq, hpull]
  dsimp only
  rw [if_pos rfl, List.reverse_reverse]

theorem fst_vector_of_fault {limits : Limits} {c : Cursor} {e : ParseError}
    (h : VectorFault limits.tensorElements judge c e) : (vector limits judge c).1 = .error e := by
  cases h with
  | unopened h =>
    obtain ⟨d, hopen⟩ := h.exists_openBracket
    rw [vector, hopen]
  | tooMany h passed full unclosed =>
    obtain ⟨d, hd, hvector⟩ := vector_of_passed h passed full.le
    obtain ⟨hpull, -⟩ := Cursor.pull_of_ahead hd
    have hfull := passed.judged.length_eq.symm.trans full
    rw [hvector, elements_eq, hpull]
    dsimp only
    rw [if_neg unclosed, if_pos (by rw [List.length_reverse, hfull])]
  | refused h passed room unclosed fault =>
    obtain ⟨d, hd, hvector⟩ := vector_of_passed h passed room.le
    obtain ⟨hpull, -⟩ := Cursor.pull_of_ahead hd
    rw [passed.judged.length_eq] at room
    rw [hvector, elements_eq, hpull]
    dsimp only
    rw [if_neg unclosed, if_neg (by rw [List.length_reverse]; omega), fault]
  | @unterminated tokens xs h passed room =>
    rw [← List.append_nil tokens] at h
    obtain ⟨d, hd, hvector⟩ := vector_of_passed h passed room
    obtain ⟨e, hpull⟩ := Cursor.pull_of_ahead_nil hd
    rw [hvector, elements_eq, hpull]

/-- **What ends a run of elements**, of which there have been `count`: the end of the input, a
closing bracket, a token too many, a token that is refused. -/
inductive Stops (limit : Nat) (judge : String → Position → Except ParseError α) (count : Nat) :
    List Sighting → Prop
  | ended : Stops limit judge count []
  | closed {d : Cursor} {after : List Sighting} : Stops limit judge count (("]", d) :: after)
  | full {t : Sighting} {after : List Sighting} (full : count = limit) (unclosed : t.1 ≠ "]") :
      Stops limit judge count (t :: after)
  | refused {t : Sighting} {after : List Sighting} {e : ParseError} (room : count < limit)
      (unclosed : t.1 ≠ "]") (fault : judge t.1 t.2.position = .error e) :
      Stops limit judge count (t :: after)

theorem Stops.succ {count : Nat} {rest : List Sighting} (h : Stops limit judge count rest) :
    Stops (limit + 1) judge (count + 1) rest := by
  cases h with
  | ended => exact .ended
  | closed => exact .closed
  | full full unclosed => exact .full (congrArg (· + 1) full) unclosed
  | refused room unclosed fault => exact .refused (Nat.succ_lt_succ room) unclosed fault

/-- **Tokens pass up to the first that ends their run.** -/
theorem exists_passed (limit : Nat) (judge : String → Position → Except ParseError α)
    (ahead : List Sighting) :
    ∃ tokens xs rest, ahead = tokens ++ rest ∧ Passed judge tokens xs ∧ tokens.length ≤ limit ∧
      Stops limit judge tokens.length rest := by
  induction ahead generalizing limit with
  | nil => exact ⟨[], [], [], rfl, passed_nil judge, Nat.zero_le _, .ended⟩
  | cons t ahead ih =>
    by_cases hclose : t.1 = "]"
    · obtain ⟨token, d⟩ := t
      obtain rfl : token = "]" := hclose
      exact ⟨[], [], _, rfl, passed_nil judge, Nat.zero_le _, .closed⟩
    · cases limit with
      | zero => exact ⟨[], [], _, rfl, passed_nil judge, Nat.zero_le _, .full rfl hclose⟩
      | succ limit =>
        cases hx : judge t.1 t.2.position with
        | error e =>
          exact ⟨[], [], _, rfl, passed_nil judge, Nat.zero_le _,
            .refused (Nat.succ_pos _) hclose hx⟩
        | ok x =>
          obtain ⟨tokens, xs, rest, rfl, hpassed, hroom, hstops⟩ := ih limit
          exact ⟨t :: tokens, x :: xs, rest, rfl, hpassed.cons hclose hx, Nat.succ_le_succ hroom,
            hstops.succ⟩

/-- A vector stands ahead, or something is in the way of one. -/
theorem isVector_or_fault (limit : Nat) (judge : String → Position → Except ParseError α)
    (c : Cursor) :
    (∃ xs d, IsVector limit judge c xs d) ∨ ∃ e, VectorFault limit judge c e := by
  rcases opens_or_unopened c with ⟨lines, hlines⟩ | ⟨e, he⟩
  · obtain ⟨tokens, xs, rest, hahead, hpassed, hroom, hstops⟩ :=
      exists_passed limit judge lines.flatten
    have hopens : c.Opens (tokens ++ rest) := ⟨lines, hlines, hahead.symm⟩
    cases hstops with
    | ended =>
      rw [List.append_nil] at hopens
      exact Or.inr ⟨_, .unterminated hopens hpassed hroom⟩
    | closed => exact Or.inl ⟨xs, _, tokens, _, hopens, hpassed, hroom⟩
    | full full unclosed => exact Or.inr ⟨_, .tooMany hopens hpassed full unclosed⟩
    | refused room unclosed fault =>
      exact Or.inr ⟨_, .refused hopens hpassed room unclosed fault⟩
  · exact Or.inr ⟨e, .unopened he⟩

end Bracketed

/-! ### Integers written down -/

/-- A gap between two tokens: blanks, and at least one. -/
def IsGap (run : List Char) : Prop := run ≠ [] ∧ ∀ b ∈ run, isBlank b = true

/-- **A vector of integers as a text**: the numerals, each behind its gap, and the closing bracket
behind a last gap; `tail` is what follows. -/
def vectorText (items : List (List Char × Int)) (last tail : List Char) : List Char :=
  '[' :: (items.flatMap (fun i => i.1 ++ (toString i.2).toList) ++ (last ++ ']' :: tail))

theorem isBlank_of_isDigit {c : Char} (h : c.isDigit = true) : isBlank c = false := by
  simp only [Char.isDigit, Bool.and_eq_true, decide_eq_true_eq, ge_iff_le,
    UInt32.le_iff_toNat_le] at h
  change 48 ≤ c.toNat ∧ c.toNat ≤ 57 at h
  simp only [isBlank, Bool.or_eq_false_iff, Bool.and_eq_false_iff, decide_eq_false_iff_not,
    beq_eq_false_iff_ne]
  omega

theorem isBlank_of_mem_toString {n : Int} {c : Char} (h : c ∈ (toString n).toList) :
    isBlank c = false := by
  rcases isDigit_or_minus_of_mem_toString h with hdigit | rfl
  · exact isBlank_of_isDigit hdigit
  · decide

/-- A token that is followed by a blank or by nothing is the first word. -/
theorem words_append_of_head {token rest : List Char} (hne : token ≠ [])
    (hsolid : ∀ c ∈ token, isBlank c = false) (hrest : ∀ b ∈ rest.head?, isBlank b = true) :
    words (token ++ rest) = String.ofList token :: words rest := by
  have htoken := words_of_no_blank hne hsolid
  cases rest with
  | nil => rw [List.append_nil, htoken, words_nil]
  | cons b rest =>
    have hb : isBlank b = true := hrest b rfl
    rw [words_append_cons hb, htoken, words_cons_blank hb, List.singleton_append]

theorem IsGap.head {run : List Char} (h : IsGap run) (rest : List Char) :
    ∀ b ∈ (run ++ rest).head?, isBlank b = true := by
  intro b hb
  obtain ⟨first, others, rfl⟩ := List.exists_cons_of_ne_nil h.1
  obtain rfl : first = b := Option.some.inj hb
  exact h.2 first List.mem_cons_self

/-- **The words of a vector that is written down**, whatever the gaps are. -/
theorem words_vectorText {items : List (List Char × Int)} {last tail : List Char}
    (hitems : ∀ i ∈ items, IsGap i.1) (hlast : IsGap last)
    (htail : ∀ b ∈ tail.head?, isBlank b = true) :
    words (vectorText items last tail) =
      "[" :: ((items.map Prod.snd).map toString ++ "]" :: words tail) := by
  -- behind the opening bracket, the text always starts with a gap
  have hbody : words (items.flatMap (fun i => i.1 ++ (toString i.2).toList) ++
        (last ++ ']' :: tail)) = (items.map Prod.snd).map toString ++ "]" :: words tail ∧
      ∀ b ∈ (items.flatMap (fun i => i.1 ++ (toString i.2).toList) ++
        (last ++ ']' :: tail)).head?, isBlank b = true := by
    induction items with
    | nil =>
      refine ⟨?_, hlast.head _⟩
      have hclose := words_append_of_head (List.cons_ne_nil ']' [])
        (List.forall_mem_singleton.mpr (by decide)) htail
      rw [List.flatMap_nil, List.nil_append, words_blanks_append hlast.2]
      exact hclose
    | cons i items ih =>
      obtain ⟨hwords, hhead⟩ := ih fun j hj => hitems j (List.mem_cons_of_mem _ hj)
      have hgap := hitems i List.mem_cons_self
      have hne : (toString i.2).toList ≠ [] := by
        rw [toList_toString_int]
        split
        · exact Nat.toDigits_ne_nil
        · simp
      rw [List.flatMap_cons, List.append_assoc, List.append_assoc]
      refine ⟨?_, hgap.head _⟩
      rw [words_blanks_append hgap.2,
        words_append_of_head hne (fun _ => isBlank_of_mem_toString) hhead, hwords,
        String.ofList_toList, List.map_cons, List.map_cons, List.cons_append]
  have hopen := words_append_of_head (List.cons_ne_nil '[' [])
    (List.forall_mem_singleton.mpr (by decide)) hbody.2
  rw [hbody.1] at hopen
  exact hopen

/-- All words left are ahead if all lines can be read. -/
theorem Cursor.map_fst_ahead {c : Cursor} (h : c.Readable) :
    c.ahead.map Prod.fst = c.unreadWords := by
  rw [ahead, unreadWords, List.map_append, map_fst_lineAhead]
  refine congrArg (c.lineWords ++ ·) ?_
  rw [laterAhead]
  rw [Readable] at h
  generalize c.pending = lines at h ⊢
  induction lines generalizing c with
  | nil => rfl
  | cons line lines ih =>
    cases line with
    | failed reason => exact absurd List.mem_cons_self (h reason)
    | text text =>
      rw [linesAhead, List.flatten_cons, List.map_append, map_fst_lineAhead,
        ih (fun reason hmem => h reason (List.mem_cons_of_mem _ hmem))]
      rfl

/-- A line that starts with a token has one. -/
theorem words_cons_ne_nil {c : Char} (h : isBlank c = false) (cs : List Char) :
    words (c :: cs) ≠ [] := by
  have htoken : LinePlace.tokenOf (c :: cs) ≠ [] := by
    simp [LinePlace.tokenOf, h]
  rw [words_eq_cons_tokenOf htoken]
  exact List.cons_ne_nil _ _

/-- The first line of a text starts as the text does. -/
theorem linesOf_cons {c : Char} (hc : c ≠ '\n') (text : List Char) :
    ∃ line later, linesOf (c :: text) = (c :: line) :: later := by
  rw [linesOf, splitAfter_cons]
  cases splitAfter (· == '\n') text with
  | nil => exact ⟨[], [], rfl⟩
  | cons piece pieces =>
    refine ⟨piece, pieces, ?_⟩
    rw [consPiece, if_neg (by simpa using hc)]

namespace Bracketed

/-- Numerals are judged to be the integers they stand for. -/
theorem judged_of_toString {tokens : List Sighting} {xs : List Int}
    (h : tokens.map Prod.fst = xs.map toString)
    (hrange : ∀ x ∈ xs, Integer.minValue ≤ x ∧ x ≤ Integer.maxValue) :
    Passed Scalar.integer tokens xs := by
  induction xs generalizing tokens with
  | nil =>
    obtain rfl := List.map_eq_nil_iff.mp h
    exact passed_nil _
  | cons x xs ih =>
    obtain ⟨t, tokens, rfl, ht, htokens⟩ := List.map_eq_cons_iff.mp h
    obtain ⟨⟨hmin, hmax⟩, hrange⟩ := List.forall_mem_cons.mp hrange
    have hparse := Integer.parse_toString hmin hmax
    rw [← ht] at hparse
    refine (ih htokens hrange).cons (fun hclose => ?_) ?_
    · -- a closing bracket is no numeral
      rw [hclose] at hparse
      cases hparse
    · rw [Scalar.integer, hparse]

/-- **Integers ahead are read**, if there is room for them. -/
theorem fst_vector_of_words {limits : Limits} {c : Cursor} {xs : List Int} {more : List String}
    (hline : c.lineAhead ≠ [])
    (hahead : c.ahead.map Prod.fst = "[" :: (xs.map toString ++ "]" :: more))
    (hrange : ∀ x ∈ xs, Integer.minValue ≤ x ∧ x ≤ Integer.maxValue)
    (hroom : xs.length ≤ limits.tensorElements) :
    (vector limits Scalar.integer c).1 = .ok xs := by
  obtain ⟨⟨token, d⟩, rest, heq, rfl, hrest⟩ := List.map_eq_cons_iff.mp hahead
  obtain ⟨tokens, behind, rfl, htokens, hbehind⟩ := List.map_eq_append_iff.mp hrest
  obtain ⟨⟨token', e⟩, after, rfl, rfl, -⟩ := List.map_eq_cons_iff.mp hbehind
  have hopens : c.Opens (tokens ++ ("]", e) :: after) := by
    obtain ⟨first, line, hfirst⟩ := List.exists_cons_of_ne_nil hline
    rw [Cursor.ahead, hfirst, List.cons_append] at heq
    obtain ⟨rfl, hline'⟩ := List.cons.inj heq
    exact ⟨_, ⟨d, line, hfirst, rfl⟩, hline'.symm⟩
  have hpassed := judged_of_toString htokens hrange
  have hlen := hpassed.judged.length_eq
  rw [vector_of_isVector ⟨tokens, after, hopens, hpassed, by omega⟩]

section Printed

variable {limits : Limits} {items : List (List Char × Int)} {last tail : List Char}

/-- A vector that is printed into one line is read back, whatever lines come later. -/
theorem fst_vector_within (pending : List SourceLine) (hitems : ∀ i ∈ items, IsGap i.1)
    (hlast : IsGap last) (htail : ∀ b ∈ tail.head?, isBlank b = true)
    (hrange : ∀ x ∈ items.map Prod.snd, Integer.minValue ≤ x ∧ x ≤ Integer.maxValue)
    (hroom : (items.map Prod.snd).length ≤ limits.tensorElements) :
    (vector limits Scalar.integer (.within (vectorText items last tail) 0 pending)).1 =
      .ok (items.map Prod.snd) := by
  have hline : (Cursor.within (vectorText items last tail) 0 pending).lineAhead.map Prod.fst =
      "[" :: ((items.map Prod.snd).map toString ++ "]" :: words tail) :=
    (Cursor.map_fst_lineAhead _).trans (words_vectorText hitems hlast htail)
  have hahead := congrArg (· ++ (Cursor.within (vectorText items last tail) 0
    pending).laterAhead.flatten.map Prod.fst) hline
  simp only [← List.map_append, List.cons_append, List.append_assoc] at hahead
  refine fst_vector_of_words (fun hnil => ?_) hahead hrange hroom
  rw [hnil] at hline
  cases hline

/-- A vector that is printed into a text is read back line by line. -/
theorem fst_vector_ofText (hitems : ∀ i ∈ items, IsGap i.1) (hlast : IsGap last)
    (htail : ∀ b ∈ tail.head?, isBlank b = true)
    (hrange : ∀ x ∈ items.map Prod.snd, Integer.minValue ≤ x ∧ x ≤ Integer.maxValue)
    (hroom : (items.map Prod.snd).length ≤ limits.tensorElements) :
    (vector limits Scalar.integer (Cursor.ofText (vectorText items last tail)).advance.2).1 =
      .ok (items.map Prod.snd) := by
  obtain ⟨line, later, hlines⟩ := linesOf_cons (show '[' ≠ '\n' by decide)
    (items.flatMap (fun i => i.1 ++ (toString i.2).toList) ++ (last ++ ']' :: tail))
  have hpending : (Cursor.ofText (vectorText items last tail)).pending =
      .text ('[' :: line) :: later.map .text := by
    rw [Cursor.ofText, ofText_eq_map_linesOf, vectorText, hlines, List.map_cons]
  -- the first line has a token, so that the cursor stands before it and not on an empty rest
  have hline : (Cursor.ofText (vectorText items last tail)).advance.2.lineAhead ≠ [] := by
    intro hnil
    have hlineWords := congrArg (List.map Prod.fst) hnil
    rw [Cursor.map_fst_lineAhead, Cursor.advance_of_text hpending] at hlineWords
    exact words_cons_ne_nil (show isBlank '[' = false by decide) line hlineWords
  have hreadable := (Cursor.moves_advance (Cursor.ofText (vectorText items last tail))).readable
    (Cursor.readable_ofText _)
  have hstart : (Cursor.ofText (vectorText items last tail)).lineWords = [] := words_nil
  have hahead : (Cursor.ofText (vectorText items last tail)).advance.2.ahead.map Prod.fst =
      "[" :: ((items.map Prod.snd).map toString ++ "]" :: words tail) := by
    rw [Cursor.map_fst_ahead hreadable, Cursor.unreadWords_advance hstart,
      Cursor.unreadWords_ofText, words_vectorText hitems hlast htail]
  exact fst_vector_of_words hline hahead hrange hroom

end Printed

/-- **The grammar of vectors.** Whatever the judge of elements and wherever the cursor stands, a
vector is read exactly if one stands ahead, with its elements in order and the cursor left just
behind it, and an error is reported exactly if it is what stands in the way first. Hence integers
that are written in decimal, with gaps of any kind and no more of them than allowed, are read
back, whether the text is a line by itself or comes line by line. -/
theorem vector_grammar (limits : Limits) :
    (∀ (α : Type) (judge : String → Position → Except ParseError α) (c : Cursor),
      (∀ xs d, vector limits judge c = (.ok xs, d) ↔
        IsVector limits.tensorElements judge c xs d) ∧
      ∀ e, (vector limits judge c).1 = .error e ↔ VectorFault limits.tensorElements judge c e) ∧
    ∀ (items : List (List Char × Int)) (last tail : List Char),
      (∀ i ∈ items, IsGap i.1) → IsGap last → (∀ b ∈ tail.head?, isBlank b = true) →
      (∀ i ∈ items, Integer.minValue ≤ i.2 ∧ i.2 ≤ Integer.maxValue) →
      items.length ≤ limits.tensorElements →
      (∀ pending, (vector limits Scalar.integer
        (.within (vectorText items last tail) 0 pending)).1 = .ok (items.map Prod.snd)) ∧
      (vector limits Scalar.integer (Cursor.ofText (vectorText items last tail)).advance.2).1 =
        .ok (items.map Prod.snd) := by
  refine ⟨fun α judge c => ?_, fun items last tail hitems hlast htail hrange hroom => ?_⟩
  · exact Reading.settled vector_of_isVector fst_vector_of_fault (isVector_or_fault _ judge c)
  · rw [← List.length_map (f := Prod.snd)] at hroom
    rw [← List.forall_mem_map (f := Prod.snd)
      (P := fun x => Integer.minValue ≤ x ∧ x ≤ Integer.maxValue)] at hrange
    exact ⟨fun pending => fst_vector_within pending hitems hlast htail hrange hroom,
      fst_vector_ofText hitems hlast htail hrange hroom⟩

/-- The two ends of the range, with line breaks around them and something behind. -/
theorem vector_grammar_extremes :
    let text := vectorText [("\n\t".toList, Integer.minValue), ("\r\n".toList, Integer.maxValue)]
      "\u2003\n\n".toList " tail".toList
    text = "[\n\t-9223372036854775808\r\n9223372036854775807\u2003\n\n] tail".toList ∧
      (vector .standard Scalar.integer (.within text 0 [])).1 =
        .ok [Integer.minValue, Integer.maxValue] ∧
      (vector .standard Scalar.integer (Cursor.ofText text).advance.2).1 =
        .ok [Integer.minValue, Integer.maxValue] := by
  have hitems : ∀ i ∈ [("\n\t".toList, Integer.minValue), ("\r\n".toList, Integer.maxValue)],
      IsGap i.1 := by
    refine List.forall_mem_cons.mpr ⟨⟨by decide, List.all_eq_true.mp (by decide)⟩, ?_⟩
    exact List.forall_mem_singleton.mpr ⟨by decide, List.all_eq_true.mp (by decide)⟩
  have hlast : IsGap "\u2003\n\n".toList := ⟨by decide, List.all_eq_true.mp (by decide)⟩
  have htail : ∀ b ∈ " tail".toList.head?, isBlank b = true := by
    intro b hb
    obtain rfl : ' ' = b := Option.some.inj hb
    decide
  have hrange : ∀ i ∈ [("\n\t".toList, Integer.minValue), ("\r\n".toList, Integer.maxValue)],
      Integer.minValue ≤ i.2 ∧ i.2 ≤ Integer.maxValue := by
    refine List.forall_mem_cons.mpr ⟨by decide, ?_⟩
    exact List.forall_mem_singleton.mpr (by decide)
  obtain ⟨hwithin, hlines⟩ :=
    (vector_grammar .standard).2 _ _ _ hitems hlast htail hrange (by decide)
  exact ⟨by decide, hwithin [], hlines⟩

end Bracketed

end NnetText
