import Mathlib.Data.List.DropRight
import NnetText.Proofs.Ahead
import NnetText.Proofs.Places

/-!
# Blanks and tokens tile a line

Tokens are taken from a line at byte offsets, while what is blank is said of characters. This file
says that the two fit together: from a place in a line, taking tokens one after another cuts the
line into blanks and tokens in turn, up to its end, with nothing skipped and nothing taken twice.

A `Tile` is a token with the blanks in front of it, and `Tiled` says how a line is covered by
them: each tile is what `nextToken` finds at the offset where the one before it ended, and is
the text of the line between the two offsets (`IsSlice`). That a line can be tiled
(`exists_tiled`) is an induction over what is left of it. That the tokens are *all* runs of
characters that are not blank, and whole ones, is said by `mem_marks_iff`, on the text alone.
Passing over blanks leads to the token of the first tile (`Tiled.snd_skipBlanks`).
-/

namespace NnetText

open LinePlace (blanksOf tokenOf behindToken blanksOf_tokenOf_behindToken)

/-! ### Parts of a line -/

/-- **The part of a line between two byte offsets**, both of which fall between characters. -/
def IsSlice (line : List Char) (i j : Nat) (part : List Char) : Prop :=
  ∃ before after, line = before ++ part ++ after ∧ i = byteSize before ∧
    j = byteSize (before ++ part)

/-- A place in a line cuts it in two. -/
theorem exists_of_suffixAt {line rest : List Char} {i : Nat} (h : suffixAt line i = some rest) :
    ∃ before, line = before ++ rest ∧ i = byteSize before := by
  induction line generalizing i with
  | nil =>
    cases i with
    | zero => exact ⟨[], by simpa using h, rfl⟩
    | succ n => simp [suffixAt] at h
  | cons c cs ih =>
    cases i with
    | zero => exact ⟨[], by simpa using h, rfl⟩
    | succ n =>
      rw [suffixAt] at h
      split at h
      · rename_i hle
        obtain ⟨before, rfl, hsize⟩ := ih h
        exact ⟨c :: before, rfl, by rw [byteSize_cons]; omega⟩
      · cases h

theorem isSlice_of_suffixAt {line part after : List Char} {i : Nat}
    (h : suffixAt line i = some (part ++ after)) : IsSlice line i (i + byteSize part) part := by
  obtain ⟨before, rfl, rfl⟩ := exists_of_suffixAt h
  exact ⟨before, after, (List.append_assoc _ _ _).symm, rfl, (byteSize_append _ _).symm⟩

/-- Both ends of a part are places in the line. -/
theorem IsSlice.suffixAt {line part : List Char} {i j : Nat} (h : IsSlice line i j part) :
    ∃ after, suffixAt line i = some (part ++ after) ∧ suffixAt line j = some after := by
  obtain ⟨before, after, rfl, rfl, rfl⟩ := h
  exact ⟨after, by rw [List.append_assoc, suffixAt_append], suffixAt_append _ _⟩

theorem IsSlice.snd_eq {line part : List Char} {i j : Nat} (h : IsSlice line i j part) :
    j = i + byteSize part := by
  obtain ⟨before, after, -, rfl, rfl⟩ := h
  exact byteSize_append _ _

/-- The end of a line is the offset behind all that is left of it. -/
theorem byteSize_of_suffixAt {line rest : List Char} {i : Nat}
    (h : suffixAt line i = some rest) : byteSize line = i + byteSize rest := by
  obtain ⟨before, rfl, rfl⟩ := exists_of_suffixAt h
  exact byteSize_append _ _

theorem byteSize_pos {cs : List Char} (h : cs ≠ []) : 0 < byteSize cs := by
  obtain ⟨c, cs, rfl⟩ := List.exists_cons_of_ne_nil h
  have hc := Char.utf8Size_pos c
  rw [byteSize_cons]
  omega

/-- **An offset cuts a text in one way only.** -/
theorem append_inj_of_byteSize {before before' after after' : List Char}
    (h : before ++ after = before' ++ after') (hsize : byteSize before = byteSize before') :
    before = before' ∧ after = after' := by
  rcases List.append_eq_append_iff.mp h with ⟨between, rfl, rfl⟩ | ⟨between, rfl, rfl⟩
  all_goals
    have hnil : between = [] := by
      by_contra hne
      have hpos := byteSize_pos hne
      rw [byteSize_append] at hsize
      omega
    simp [hnil]

/-! ### Tokens at offsets -/

section

variable {line rest : List Char} {i : Nat}

/-- Behind the blanks and the token that are left, the line goes on. -/
theorem suffixAt_behindToken (h : suffixAt line i = some rest) :
    suffixAt line (i + byteSize (blanksOf rest ++ tokenOf rest)) = some (behindToken rest) := by
  rw [← blanksOf_tokenOf_behindToken rest] at h
  exact suffixAt_add_byteSize h

/-- **The token behind a place** of a line, and the offset behind it. -/
theorem nextToken_of_tokenOf (h : suffixAt line i = some rest) (ht : tokenOf rest ≠ []) :
    nextToken line i =
      (some (String.ofList (tokenOf rest)), i + byteSize (blanksOf rest ++ tokenOf rest)) := by
  have hrest : (LinePlace.ofOffset line i).rest = some rest := h
  have hfst := LinePlace.fst_nextToken hrest
  rw [if_neg (by simpa using ht)] at hfst
  exact Prod.ext hfst (LinePlace.offset_nextToken hrest)

/-- Without a token the end of the line is reached. -/
theorem nextToken_of_tokenOf_nil (h : suffixAt line i = some rest) (ht : tokenOf rest = []) :
    nextToken line i = (none, byteSize line) := by
  have hrest : (LinePlace.ofOffset line i).rest = some rest := h
  have hfst := LinePlace.fst_nextToken hrest
  rw [if_pos (by simp [ht])] at hfst
  refine Prod.ext hfst ((LinePlace.offset_nextToken hrest).trans ?_)
  rw [ht, List.append_nil, blanksOf_eq_self_of_tokenOf ht, byteSize_of_suffixAt h]
  rfl

/-- **The steps of a line** go on from the offset that the first of them leads to. -/
theorem tokenSteps_eq (line : List Char) (i : Nat) :
    tokenSteps line i =
      match nextToken line i with
      | (none, j) => [(none, j)]
      | (some token, j) => (some token, j) :: tokenSteps line j := by
  have hline := (LinePlace.ofOffset line i).line_nextToken
  have hplace := LinePlace.ofOffset_line_offset (LinePlace.ofOffset line i).nextToken.2
  rw [hline] at hplace
  rw [tokenSteps, LinePlace.tokenSteps]
  rcases hnext : (LinePlace.ofOffset line i).nextToken with ⟨_ | token, q⟩
  · simp only [nextToken, hnext]
  · rw [hnext] at hplace
    simp only [nextToken, hnext, tokenSteps]
    exact congrArg (fun p => (some token, q.offset) :: LinePlace.tokenSteps p) hplace.symm

theorem tokenSteps_of_none {j : Nat} (h : nextToken line i = (none, j)) :
    tokenSteps line i = [(none, j)] := by
  rw [tokenSteps_eq, h]

theorem tokenSteps_of_some {token : String} {j : Nat} (h : nextToken line i = (some token, j)) :
    tokenSteps line i = (some token, j) :: tokenSteps line j := by
  rw [tokenSteps_eq, h]

end

/-! ### Whole runs

A run of characters that are not blank is whole if it cannot be made longer, which is what
`Delimited` says of a token between what comes before it and what comes after. -/

/-- A whole run at the beginning of a text is its first mark. -/
theorem mem_marks_append {token after : List Char} (hne : token ≠ [])
    (hsolid : ∀ c ∈ token, isBlank c = false) (hafter : ∀ c ∈ after.head?, isBlank c = true)
    (offset : Nat) :
    (String.ofList token, offset + byteSize token) ∈ marks offset (token ++ after) := by
  have htoken := marks_of_no_blank hne hsolid offset
  rcases after with _ | ⟨b, after⟩
  · rw [List.append_nil, htoken]
    exact List.mem_cons_self
  · rw [marks_append_cons (hafter b rfl), htoken]
    exact List.mem_append_left _ List.mem_cons_self

/-- **Every whole run is marked**, with the offset behind it. -/
theorem Delimited.mem_marks {before token after : List Char} (h : Delimited before token after)
    (offset : Nat) :
    (String.ofList token, offset + byteSize (before ++ token)) ∈
      marks offset (before ++ token ++ after) := by
  rcases List.eq_nil_or_concat before with rfl | ⟨front, b, rfl⟩
  · exact mem_marks_append h.ne_nil h.solid h.after offset
  · -- the run starts behind a blank, which cuts the text in two
    have hb : isBlank b = true := h.before b (by simp)
    have hmem := mem_marks_append h.ne_nil h.solid h.after
      (offset + byteSize front + b.utf8Size)
    have hsize : offset + byteSize (front.concat b ++ token) =
        offset + byteSize front + b.utf8Size + byteSize token := by
      simp only [List.concat_eq_append, byteSize_append, byteSize_cons, byteSize_nil]
      omega
    rw [hsize, List.concat_eq_append, List.append_assoc, List.append_assoc, List.singleton_append,
      marks_append_cons hb]
    exact List.mem_append_right _ hmem

/-- A run that is whole behind a token is whole in the text. -/
theorem Delimited.of_behindToken {text before token after : List Char}
    (hbehind : behindToken text = before ++ token ++ after) (h : Delimited before token after) :
    Delimited (blanksOf text ++ tokenOf text ++ before) token after where
  ne_nil := h.ne_nil
  solid := h.solid
  after := h.after
  before := by
    intro c hc
    rcases List.eq_nil_or_concat before with rfl | ⟨front, b, rfl⟩
    · -- behind a token stands a blank, so that no run can start there
      obtain ⟨t, ts, rfl⟩ := List.exists_cons_of_ne_nil h.ne_nil
      rcases behindToken_cases text with hnil | ⟨b, bs, hbs, hb⟩
      · cases hnil.symm.trans hbehind
      · obtain ⟨rfl, -⟩ := List.cons.inj (hbs.symm.trans hbehind)
        cases hb.symm.trans (h.solid b List.mem_cons_self)
    · refine h.before c ?_
      rw [List.concat_eq_append, List.getLast?_concat]
      rwa [List.concat_eq_append, ← List.append_assoc, List.getLast?_concat] at hc

/-- Every mark is that of a whole run. -/
theorem exists_delimited_of_mem_marks {text : List Char} {offset j : Nat} {s : String}
    (h : (s, j) ∈ marks offset text) :
    ∃ before token after, text = before ++ token ++ after ∧ Delimited before token after ∧
      s = String.ofList token ∧ j = offset + byteSize (before ++ token) := by
  induction text using tokenInduction generalizing offset with
  | blank text ht =>
    rw [marks_eq_nil_of_tokenOf ht] at h
    cases h
  | token text ht ih =>
    rw [marks_eq_cons_tokenOf ht, List.mem_cons] at h
    rcases h with h | h
    · obtain ⟨rfl, rfl⟩ := Prod.mk.inj h
      have hclean : CleanCut [] text := Or.inl fun _ hc => by cases hc
      exact ⟨blanksOf text, tokenOf text, behindToken text,
        (blanksOf_tokenOf_behindToken text).symm, delimited_tokenOf hclean ht, rfl, rfl⟩
    · obtain ⟨before, token, after, hbehind, hdelimited, rfl, rfl⟩ := ih h
      refine ⟨blanksOf text ++ tokenOf text ++ before, token, after, ?_,
        hdelimited.of_behindToken hbehind, rfl, ?_⟩
      · conv_lhs => rw [← blanksOf_tokenOf_behindToken text, hbehind]
        simp only [List.append_assoc]
      · simp only [byteSize_append]
        omega

/-- **The marks of a text are its whole runs**, and nothing else. -/
theorem mem_marks_iff {before token after : List Char} (offset : Nat) :
    (String.ofList token, offset + byteSize (before ++ token)) ∈
        marks offset (before ++ token ++ after) ↔
      Delimited before token after := by
  refine ⟨fun h => ?_, fun h => h.mem_marks offset⟩
  obtain ⟨before', token', after', htext, hdelimited, htoken, hoffset⟩ :=
    exists_delimited_of_mem_marks h
  obtain rfl := String.ofList_injective htoken
  -- the same offset behind it, and so the same run
  have hsize : byteSize (before ++ token) = byteSize (before' ++ token) := by omega
  obtain ⟨hfront, rfl⟩ := append_inj_of_byteSize htext hsize
  obtain rfl := List.append_cancel_right hfront
  exact hdelimited

/-! ### Tiles -/

/-- A token, the blanks in front of it, and the offsets between which it stands. -/
structure Tile where
  blanks : List Char
  token : List Char
  start : Nat
  behind : Nat

namespace Tile

/-- What a tile covers. -/
def text (t : Tile) : List Char := t.blanks ++ t.token

/-- The step that takes the token of a tile. -/
def step (t : Tile) : Option String × Nat := (some (String.ofList t.token), t.behind)

/-- The tile at the beginning of what is left of a line. -/
def ofRest (i : Nat) (rest : List Char) : Tile :=
  ⟨blanksOf rest, tokenOf rest, i + byteSize (blanksOf rest),
    i + byteSize (blanksOf rest ++ tokenOf rest)⟩

end Tile

/-- **A line is tiled from an offset on**: by tiles, each of which is found where the one before it
ends, and by blanks behind the last of them. -/
inductive Tiled (line : List Char) : Nat → List Tile → List Char → Prop
  /-- There is no token, and what is left is blank. -/
  | last {i : Nat} {blanks : List Char} (next : nextToken line i = (none, byteSize line))
      (gap : IsSlice line i (byteSize line) blanks) (blank : ∀ b ∈ blanks, isBlank b = true) :
      Tiled line i [] blanks
  /-- There is a token, and what stands in front of it is blank. -/
  | tile {i : Nat} {t : Tile} {tiles : List Tile} {tail : List Char}
      (next : nextToken line i = t.step) (later : i < t.behind)
      (gap : IsSlice line i t.start t.blanks) (blank : ∀ b ∈ t.blanks, isBlank b = true)
      (slice : IsSlice line t.start t.behind t.token) (solid : ∀ c ∈ t.token, isBlank c = false)
      (others : Tiled line t.behind tiles tail) : Tiled line i (t :: tiles) tail

section

variable {line rest : List Char} {i : Nat}

/-- The tile at the beginning of what is left. -/
theorem Tiled.of_tokenOf {tiles : List Tile} {tail : List Char} (h : suffixAt line i = some rest)
    (ht : tokenOf rest ≠ []) (others : Tiled line (Tile.ofRest i rest).behind tiles tail) :
    Tiled line i (Tile.ofRest i rest :: tiles) tail := by
  have hparts := blanksOf_tokenOf_behindToken rest
  have hgap : suffixAt line i = some (blanksOf rest ++ (tokenOf rest ++ behindToken rest)) := by
    rw [h, ← List.append_assoc, hparts]
  refine .tile (nextToken_of_tokenOf h ht) ?_ (isSlice_of_suffixAt hgap)
    (fun _ hb => isBlank_of_mem_blanksOf hb) ?_ (fun _ hc => isBlank_of_mem_tokenOf hc) others
  · have hpos := byteSize_pos ht
    change i < i + byteSize (blanksOf rest ++ tokenOf rest)
    rw [byteSize_append]
    omega
  · have hslice := isSlice_of_suffixAt (suffixAt_add_byteSize hgap)
    rw [Nat.add_assoc, ← byteSize_append] at hslice
    exact hslice

/-- **From every place on, a line is tiled.** -/
theorem exists_tiled (h : suffixAt line i = some rest) : ∃ tiles tail, Tiled line i tiles tail := by
  induction rest using tokenInduction generalizing i with
  | blank rest ht =>
    have hwhole : suffixAt line i = some (rest ++ []) := by rw [h, List.append_nil]
    have hslice := isSlice_of_suffixAt hwhole
    rw [← byteSize_of_suffixAt h] at hslice
    refine ⟨[], rest, .last (nextToken_of_tokenOf_nil h ht) hslice fun b hb => ?_⟩
    rw [← blanksOf_eq_self_of_tokenOf ht] at hb
    exact isBlank_of_mem_blanksOf hb
  | token rest ht ih =>
    obtain ⟨tiles, tail, htiled⟩ := ih (suffixAt_behindToken h)
    exact ⟨_, tail, Tiled.of_tokenOf h ht htiled⟩

/-- The steps of a line take the tokens of its tiles, one by one, and then reach its end. -/
theorem Tiled.tokenSteps_eq {tiles : List Tile} {tail : List Char}
    (h : Tiled line i tiles tail) :
    tokenSteps line i = tiles.map Tile.step ++ [(none, byteSize line)] := by
  induction h with
  | last next => exact tokenSteps_of_none next
  | tile next _ _ _ _ _ _ ih =>
    rw [tokenSteps_of_some next, ih, List.map_cons, List.cons_append]
    rfl

/-- **Tiles and the blanks behind them are the whole text.** -/
theorem Tiled.flatten_append {tiles : List Tile} {tail : List Char} (h : Tiled line i tiles tail)
    (hrest : suffixAt line i = some rest) : (tiles.map Tile.text).flatten ++ tail = rest := by
  induction h generalizing rest with
  | last _ gap =>
    obtain ⟨after, hi, hend⟩ := gap.suffixAt
    have hsize := byteSize_of_suffixAt hend
    have hnil : after = [] := by
      by_contra hne
      have hpos := byteSize_pos hne
      omega
    rw [hi, hnil, List.append_nil] at hrest
    exact Option.some.inj hrest
  | tile _ _ gap _ slice _ _ ih =>
    obtain ⟨after, hi, hstart⟩ := gap.suffixAt
    obtain ⟨after', hstart', hbehind⟩ := slice.suffixAt
    obtain rfl := Option.some.inj (hstart.symm.trans hstart')
    rw [List.map_cons, List.flatten_cons, List.append_assoc, ih hbehind, Tile.text,
      List.append_assoc]
    exact Option.some.inj (hi.symm.trans hrest)

/-- The steps of a line take the tokens that are marked in it. -/
theorem tokenSteps_eq_marks (h : suffixAt line i = some rest) :
    tokenSteps line i =
      (marks i rest).map (fun m => (some m.1, m.2)) ++ [(none, byteSize line)] := by
  induction rest using tokenInduction generalizing i with
  | blank rest ht =>
    rw [tokenSteps_of_none (nextToken_of_tokenOf_nil h ht), marks_eq_nil_of_tokenOf ht]
    rfl
  | token rest ht ih =>
    rw [tokenSteps_of_some (nextToken_of_tokenOf h ht), marks_eq_cons_tokenOf ht,
      ih (suffixAt_behindToken h)]
    rfl

/-- A tile stands for each whole run of what is left, and for nothing else. -/
theorem Tiled.delimited_iff {tiles : List Tile} {tail before token after : List Char}
    (h : Tiled line i tiles tail) (hrest : suffixAt line i = some (before ++ token ++ after)) :
    Delimited before token after ↔
      ∃ t ∈ tiles, t.token = token ∧ t.behind = i + byteSize (before ++ token) := by
  have hsteps : tiles.map Tile.step =
      (marks i (before ++ token ++ after)).map (fun m => (some m.1, m.2)) :=
    List.append_cancel_right (h.tokenSteps_eq.symm.trans (tokenSteps_eq_marks hrest))
  rw [← mem_marks_iff i]
  constructor
  · intro hmark
    have hstep := List.mem_map_of_mem (f := fun m : String × Nat => (some m.1, m.2)) hmark
    rw [← hsteps] at hstep
    obtain ⟨t, ht, heq⟩ := List.mem_map.mp hstep
    obtain ⟨htoken, hbehind⟩ := Prod.mk.inj heq
    exact ⟨t, ht, String.ofList_injective (Option.some.inj htoken), hbehind⟩
  · rintro ⟨t, ht, rfl, hbehind⟩
    have hstep := List.mem_map_of_mem (f := Tile.step) ht
    rw [hsteps] at hstep
    obtain ⟨⟨s, j⟩, hmark, heq⟩ := List.mem_map.mp hstep
    obtain ⟨hs, rfl⟩ := Prod.mk.inj heq
    rw [← hbehind, ← Option.some.inj hs]
    exact hmark

/-! ### Passing over blanks -/

/-- **Passing over blanks** leads behind all of them and says whether a line feed is among
them. -/
theorem skipBlanks_of_suffixAt (h : suffixAt line i = some rest) :
    skipBlanks line i = ((blanksOf rest).contains '\n', i + byteSize (blanksOf rest)) := by
  have hrest : (LinePlace.ofOffset line i).rest = some rest := h
  rw [skipBlanks, LinePlace.skipBlanks_of_rest hrest]
  rfl

/-- What is left of a line is the blanks that are passed over, and what stands behind them. -/
theorem suffixAt_eq_blanksOf_append (h : suffixAt line i = some rest) :
    suffixAt line i = some (blanksOf rest ++ rest.dropWhile isBlank) :=
  h.trans (congrArg some List.takeWhile_append_dropWhile.symm)

/-- The place behind the blanks has the same token ahead. -/
theorem nextToken_skipBlanks (h : suffixAt line i = some rest) :
    nextToken line (skipBlanks line i).2 = nextToken line i := by
  have hskipped : suffixAt line (skipBlanks line i).2 = some (rest.dropWhile isBlank) := by
    rw [skipBlanks_of_suffixAt h]
    exact suffixAt_add_byteSize (suffixAt_eq_blanksOf_append h)
  -- no blanks are left in front of the token, and the token is the same
  have hidempotent := List.dropWhile_idempotent isBlank rest
  have hblanks : blanksOf (rest.dropWhile isBlank) = [] := by
    have hagain := List.takeWhile_append_dropWhile (p := isBlank) (l := rest.dropWhile isBlank)
    rw [hidempotent] at hagain
    exact List.append_left_eq_self.mp hagain
  have htoken : tokenOf (rest.dropWhile isBlank) = tokenOf rest := by
    rw [tokenOf, hidempotent, tokenOf]
  by_cases ht : tokenOf rest = []
  · rw [nextToken_of_tokenOf_nil hskipped (htoken.trans ht), nextToken_of_tokenOf_nil h ht]
  · rw [nextToken_of_tokenOf hskipped (htoken ▸ ht), nextToken_of_tokenOf h ht, htoken, hblanks,
      skipBlanks_of_suffixAt h, List.nil_append, byteSize_append, Nat.add_assoc]

/-- Passing over blanks leads to the token of the first tile, or to the end of the line. -/
theorem Tiled.snd_skipBlanks {tiles : List Tile} {tail : List Char} (h : Tiled line i tiles tail)
    (hrest : suffixAt line i = some rest) :
    (skipBlanks line i).2 = (tiles.head?.map Tile.start).getD (byteSize line) := by
  rw [skipBlanks_of_suffixAt hrest]
  by_cases ht : tokenOf rest = []
  · have hnone := nextToken_of_tokenOf_nil hrest ht
    cases h with
    | last =>
      rw [blanksOf_eq_self_of_tokenOf ht]
      exact (byteSize_of_suffixAt hrest).symm
    | tile next => cases hnone.symm.trans next
  · have hsome := nextToken_of_tokenOf hrest ht
    cases h with
    | last next => cases hsome.symm.trans next
    | @tile _ t _ _ next _ _ _ slice =>
      -- the token and its end are known, and with them its start
      obtain ⟨htoken, hbehind⟩ := Prod.mk.inj (hsome.symm.trans next)
      have htoken' : tokenOf rest = t.token := String.ofList_injective (Option.some.inj htoken)
      have hslice := slice.snd_eq
      rw [byteSize_append, htoken'] at hbehind
      change i + byteSize (blanksOf rest) = t.start
      omega

end

/-! ### The whole line -/

/-- **Blanks and tokens tile a line.** From a place of a line on, `nextToken` finds one tile
after another and then the end of the line; the steps are these and no others. Together with the
blanks behind them the tiles are the whole text, and their tokens are the whole runs of characters
in it that are not blank, each of them once. Passing over blanks leads to the first token, or to
the end of the line, crosses a line feed exactly if it says so, and changes nothing about the
tokens to come. -/
theorem tiled_from_place {line rest : List Char} {i : Nat} (h : suffixAt line i = some rest) :
    ∃ tiles tail, Tiled line i tiles tail ∧
      tokenSteps line i = tiles.map Tile.step ++ [(none, byteSize line)] ∧
      (tiles.map Tile.text).flatten ++ tail = rest ∧
      (∀ before token after, rest = before ++ token ++ after →
        (Delimited before token after ↔
          ∃ t ∈ tiles, t.token = token ∧ t.behind = i + byteSize (before ++ token))) ∧
      (∃ blanks, IsSlice line i (skipBlanks line i).2 blanks ∧
        ((skipBlanks line i).1 = true ↔ '\n' ∈ blanks)) ∧
      (skipBlanks line i).2 = (tiles.head?.map Tile.start).getD (byteSize line) ∧
      nextToken line (skipBlanks line i).2 = nextToken line i := by
  obtain ⟨tiles, tail, htiled⟩ := exists_tiled h
  refine ⟨tiles, tail, htiled, htiled.tokenSteps_eq, htiled.flatten_append h, ?_, ?_,
    htiled.snd_skipBlanks h, nextToken_skipBlanks h⟩
  · rintro before token after rfl
    exact htiled.delimited_iff h
  · rw [skipBlanks_of_suffixAt h]
    exact ⟨blanksOf rest, isSlice_of_suffixAt (suffixAt_eq_blanksOf_append h),
      List.contains_iff_mem⟩

/-- Letters of one, two and four bytes, with blanks of one and three bytes between them. -/
def wideLine : List Char := ['a', 'é', '\u3000', '\n', '𝄞', ' ', 'b', '\u2003']

/-- From inside its first word, a line with wide letters and wide blanks is tiled to its end. -/
theorem tiled_from_place_wideLine :
    suffixAt wideLine 1 = some (wideLine.drop 1) ∧
      ∃ tiles tail, Tiled wideLine 1 tiles tail ∧
        tokenSteps wideLine 1 = tiles.map Tile.step ++ [(none, 16)] ∧
        (tiles.map Tile.text).flatten ++ tail = wideLine.drop 1 ∧
        (skipBlanks wideLine 1).2 = (tiles.head?.map Tile.start).getD 16 := by
  have h : suffixAt wideLine 1 = some (wideLine.drop 1) := by decide
  obtain ⟨tiles, tail, htiled, hsteps, htext, -, -, hskip, -⟩ := tiled_from_place h
  exact ⟨h, tiles, tail, htiled, hsteps, htext, hskip⟩

end NnetText
