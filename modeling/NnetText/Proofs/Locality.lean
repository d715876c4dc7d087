import NnetText.Proofs.Bodies
import NnetText.Proofs.Layout

/-!
# What has been read does not depend on what follows

A reader that has come to a point of the text has not looked behind it. So the text behind the
point can be exchanged, and the reader comes to the same point again with the same result. This is
what `Local` says of a reader; literals are read locally (`Literal.local_read`), and the way through
a body is local too (`Component.Reads.exists_reframed`).

What a cursor has ahead is `Cursor.view`: what is left of its line, and the lines to come. Two
cursors are `Cursor.Reframed` if their views are the same up to a point, whatever comes behind it on
either side. A step on the left has its counterpart on the right if it does not lead past the point
(`Cursor.Before`). Steps never lead back, since `Cursor.remaining` does not grow, and so a reader
that has not gone past the point at its end has not done so on its way.

A token that ends at the point would go on behind it if no blank came there. This is why `Before`
asks for one, though only of a cursor that has come to the point.
-/

namespace NnetText

open LinePlace (blanksOf tokenOf behindToken blanksOf_tokenOf_behindToken)

/-! ### The first token of a text -/

/-- **A text starts with a token**: blanks, the token, and what stands behind it. -/
structure Starts (text : List Char) (token : String) (behind : List Char) : Prop where
  text : ∃ blanks, (∀ b ∈ blanks, isBlank b = true) ∧ text = blanks ++ (token.toList ++ behind)
  ne_nil : token.toList ≠ []
  solid : ∀ c ∈ token.toList, isBlank c = false
  behind : ∀ c ∈ behind.head?, isBlank c = true

namespace Starts

variable {text behind : List Char} {token : String}

theorem tokenOf_eq (h : Starts text token behind) :
    tokenOf text = token.toList ∧ behindToken text = behind := by
  obtain ⟨⟨blanks, hblanks, rfl⟩, hne, hsolid, hbehind⟩ := h
  have hdrop : (blanks ++ (token.toList ++ behind)).dropWhile isBlank = token.toList ++ behind := by
    obtain ⟨c, cs, hcs⟩ := List.exists_cons_of_ne_nil hne
    have hc := hsolid c (hcs ▸ List.mem_cons_self)
    rw [List.dropWhile_append_of_pos hblanks, hcs, List.cons_append, List.dropWhile_cons_of_neg]
    simp [hc]
  have hsolid' : ∀ c ∈ token.toList, (!isBlank c) = true := by
    intro c hc
    simp [hsolid c hc]
  -- behind the token there is nothing or a blank, and it ends there
  have hstop : behind.takeWhile (fun c => !isBlank c) = [] ∧
      behind.dropWhile (fun c => !isBlank c) = behind := by
    rcases behind with _ | ⟨b, bs⟩
    · exact ⟨rfl, rfl⟩
    · have hb := hbehind b rfl
      exact ⟨List.takeWhile_cons_of_neg (by simp [hb]), List.dropWhile_cons_of_neg (by simp [hb])⟩
  constructor
  · rw [tokenOf, hdrop, List.takeWhile_append_of_pos hsolid', hstop.1, List.append_nil]
  · rw [behindToken, hdrop, List.dropWhile_append_of_pos hsolid', hstop.2]

theorem of_tokenOf (h : tokenOf text ≠ []) :
    Starts text (String.ofList (tokenOf text)) (behindToken text) where
  text := by
    refine ⟨blanksOf text, fun _ hb => isBlank_of_mem_blanksOf hb, ?_⟩
    rw [String.toList_ofList, ← List.append_assoc, blanksOf_tokenOf_behindToken]
  ne_nil := by rwa [String.toList_ofList]
  solid := by
    rw [String.toList_ofList]
    exact fun _ hc => isBlank_of_mem_tokenOf hc
  behind := by
    intro c hc
    rcases behindToken_cases text with hnil | ⟨b, bs, hbs, hb⟩
    · rw [hnil] at hc
      cases hc
    · rw [hbs] at hc
      obtain rfl : b = c := by simpa using hc
      exact hb

/-- **The end of a text can be exchanged** behind its first token. -/
theorem exchange {a b : List Char} (h : Starts (a ++ b) token behind)
    (hle : b.length ≤ behind.length) :
    ∃ v, behind = v ++ b ∧ ∀ b' : List Char,
      (v = [] → ∀ c ∈ b'.head?, isBlank c = true) → Starts (a ++ b') token (v ++ b') := by
  obtain ⟨⟨blanks, hblanks, heq⟩, hne, hsolid, hbehind⟩ := h
  have hsuffix : behind <:+ a ++ b := by
    rw [heq, ← List.append_assoc]
    exact List.suffix_append _ _
  obtain ⟨v, rfl⟩ := List.suffix_of_suffix_length_le (List.suffix_append a b) hsuffix hle
  have ha : a = blanks ++ (token.toList ++ v) := by
    rw [← List.append_assoc, ← List.append_assoc] at heq
    rw [List.append_cancel_right heq, List.append_assoc]
  refine ⟨v, rfl, fun b' hb' => ⟨⟨blanks, hblanks, ?_⟩, hne, hsolid, ?_⟩⟩
  · simp [ha]
  · intro c hc
    rcases v with _ | ⟨x, v⟩
    · exact hb' rfl c hc
    · exact hbehind c hc

end Starts

namespace Cursor

/-! ### What a cursor has ahead -/

/-- What is left of the current line. -/
def lineRest (c : Cursor) : List Char := c.place.rest.getD []

/-- **What a cursor has ahead, line by line**: what is left of its line, and the lines to come. -/
def view (c : Cursor) : List SourceLine := .text c.lineRest :: c.pending

variable {c d : Cursor} {token : String}

theorem remaining_eq (c : Cursor) : c.remaining = c.lineRest.length + pendingSize c.pending := by
  rw [remaining, LinePlace.unread, lineRest]
  cases c.place.rest <;> rfl

theorem pendingSize_view (c : Cursor) : pendingSize c.view = c.remaining + 1 := by
  rw [remaining_eq, view, pendingSize, List.foldr_cons, SourceLine.size, ← pendingSize]
  omega

theorem pendingSize_append (lines lines' : List SourceLine) :
    pendingSize (lines ++ lines') = pendingSize lines + pendingSize lines' := by
  induction lines with
  | nil => exact (Nat.zero_add _).symm
  | cons line lines ih =>
    rw [List.cons_append, pendingSize, List.foldr_cons, ← pendingSize, ih, pendingSize,
      pendingSize, pendingSize, List.foldr_cons, Nat.add_assoc]

/-- The token and what stands behind it, in terms of what is left of the line. -/
theorem nextToken_lineRest (c : Cursor) :
    c.nextToken.1 = (if (tokenOf c.lineRest).isEmpty then none
      else some (String.ofList (tokenOf c.lineRest))) ∧
    c.nextToken.2.lineRest = behindToken c.lineRest := by
  rcases hrest : c.place.rest with _ | rest
  · have hnext : c.nextToken = (none, c) := by
      simp [nextToken, LinePlace.nextToken_of_rest_none hrest]
    simp [hnext, lineRest, hrest, tokenOf, behindToken]
  · have hlineRest : c.lineRest = rest := by rw [lineRest, hrest, Option.getD_some]
    have hbehind : c.nextToken.2.place.rest = _ := LinePlace.rest_nextToken hrest
    rw [hlineRest, lineRest, hbehind]
    exact ⟨LinePlace.fst_nextToken hrest, rfl⟩

/-- **A token that is taken starts the rest of the line.** -/
theorem starts_of_nextToken (h : c.nextToken = (some token, d)) :
    Starts c.lineRest token d.lineRest := by
  obtain ⟨htoken, hbehind⟩ := c.nextToken_lineRest
  rw [h] at htoken hbehind
  by_cases hnil : tokenOf c.lineRest = []
  · simp [hnil] at htoken
  · rw [if_neg (by simpa using hnil)] at htoken
    have hstarts := Starts.of_tokenOf hnil
    rwa [← Option.some.inj htoken, ← hbehind] at hstarts

/-- **The token that starts the rest of the line is taken.** -/
theorem nextToken_of_starts {behind : List Char} (h : Starts c.lineRest token behind) :
    c.nextToken = (some token, c.nextToken.2) ∧ c.nextToken.2.lineRest = behind := by
  obtain ⟨htoken, hbehind⟩ := c.nextToken_lineRest
  obtain ⟨hof, hof'⟩ := h.tokenOf_eq
  rw [hof, if_neg (by simpa using h.ne_nil), String.ofList_toList] at htoken
  exact ⟨Prod.ext htoken rfl, hbehind.trans hof'⟩

theorem blank_of_nextToken_none (h : c.nextToken = (none, d)) :
    (∀ b ∈ c.lineRest, isBlank b = true) ∧ d.lineRest = [] := by
  obtain ⟨htoken, hbehind⟩ := c.nextToken_lineRest
  rw [h] at htoken hbehind
  have hnil : tokenOf c.lineRest = [] := by
    by_contra hne
    rw [if_neg (by simpa using hne)] at htoken
    cases htoken
  have hblanks := blanksOf_eq_self_of_tokenOf hnil
  constructor
  · intro b hb
    rw [← hblanks] at hb
    exact isBlank_of_mem_blanksOf hb
  · have happend := blanksOf_tokenOf_behindToken c.lineRest
    rw [hblanks, hnil, List.append_nil] at happend
    exact hbehind.trans (List.append_right_eq_self.mp happend)

theorem nextToken_of_blank (h : ∀ b ∈ c.lineRest, isBlank b = true) :
    c.nextToken = (none, c.nextToken.2) :=
  nextToken_of_lineWords_nil (words_blanks h)

/-- Blanks are passed over up to the next character of the line. -/
theorem skipBlanks_lineRest (c : Cursor) :
    c.skipBlanks.1 = (blanksOf c.lineRest).contains '\n' ∧
      c.skipBlanks.2.lineRest = c.lineRest.dropWhile isBlank := by
  change c.place.skipBlanks.1 = _ ∧ c.place.skipBlanks.2.rest.getD [] = _
  cases hrest : c.place.rest with
  | none =>
    have hlineRest : c.lineRest = [] := by rw [lineRest, hrest, Option.getD_none]
    rw [hlineRest, LinePlace.skipBlanks_of_rest_none hrest, hrest]
    exact ⟨rfl, rfl⟩
  | some rest =>
    have hlineRest : c.lineRest = rest := by rw [lineRest, hrest, Option.getD_some]
    rw [hlineRest, LinePlace.skipBlanks_of_rest hrest]
    exact ⟨rfl, rfl⟩

/-! ### Another text behind a point -/

/-- **The same text ahead, up to a point.** Behind the point, `b` is left of the line and `later`
are the lines to come on the left, and `b'` and `later'` on the right. -/
structure Reframed (b b' : List Char) (later later' : List SourceLine) (c d : Cursor) : Prop where
  lineNumber : d.lineNumber = c.lineNumber
  view : ∃ ls a, c.view = ls ++ .text (a ++ b) :: later ∧ d.view = ls ++ .text (a ++ b') :: later'

/-- **A cursor has not gone past a point** behind which `b` and `later` follow. If it has come to
the point, then `b'` starts with a blank. -/
structure Before (b b' : List Char) (later : List SourceLine) (c : Cursor) : Prop where
  le : b.length + pendingSize later ≤ c.remaining
  blank : b.length + pendingSize later = c.remaining → ∀ x ∈ b'.head?, isBlank x = true

variable {b b' : List Char} {later later' : List SourceLine}

theorem Before.of_le (h : d.Before b b' later) (hle : d.remaining ≤ c.remaining) :
    c.Before b b' later := by
  refine ⟨Nat.le_trans h.le hle, fun heq => h.blank ?_⟩
  have hle' := h.le
  omega

namespace Reframed

/-- The point is on the line of the cursors. -/
theorem of_here {a : List Char} (hnumber : d.lineNumber = c.lineNumber)
    (hc : c.lineRest = a ++ b) (hd : d.lineRest = a ++ b') (hpc : c.pending = later)
    (hpd : d.pending = later') : Reframed b b' later later' c d := by
  refine ⟨hnumber, [], a, ?_, ?_⟩
  · rw [Cursor.view, hc, hpc, List.nil_append]
  · rw [Cursor.view, hd, hpd, List.nil_append]

/-- The point is on a later line. -/
theorem of_ahead {ls : List SourceLine} {a : List Char} (hnumber : d.lineNumber = c.lineNumber)
    (hrest : d.lineRest = c.lineRest) (hpc : c.pending = ls ++ .text (a ++ b) :: later)
    (hpd : d.pending = ls ++ .text (a ++ b') :: later') : Reframed b b' later later' c d := by
  refine ⟨hnumber, .text c.lineRest :: ls, a, ?_, ?_⟩
  · rw [Cursor.view, hpc, List.cons_append]
  · rw [Cursor.view, hpd, hrest, List.cons_append]

theorem cases (h : Reframed b b' later later' c d) :
    (∃ a, c.lineRest = a ++ b ∧ d.lineRest = a ++ b' ∧ c.pending = later ∧ d.pending = later') ∨
      d.lineRest = c.lineRest ∧ ∃ ls a, c.pending = ls ++ .text (a ++ b) :: later ∧
        d.pending = ls ++ .text (a ++ b') :: later' := by
  obtain ⟨-, ls, a, hc, hd⟩ := h
  rcases ls with _ | ⟨first, ls⟩
  · obtain ⟨hcline, hcpending⟩ := List.cons.inj hc
    obtain ⟨hdline, hdpending⟩ := List.cons.inj hd
    exact Or.inl ⟨a, SourceLine.text.inj hcline, SourceLine.text.inj hdline, hcpending, hdpending⟩
  · obtain ⟨hcline, hcpending⟩ := List.cons.inj hc
    obtain ⟨hdline, hdpending⟩ := List.cons.inj hd
    exact Or.inr ⟨SourceLine.text.inj (hdline.trans hcline.symm), ls, a, hcpending, hdpending⟩

/-- **A token in front of the point is taken on both sides.** -/
theorem nextToken {c' : Cursor} (h : Reframed b b' later later' c d)
    (hc : c.nextToken = (some token, c')) (hbefore : c'.Before b b' later) :
    ∃ d', d.nextToken = (some token, d') ∧ Reframed b b' later later' c' d' := by
  have hstarts := starts_of_nextToken hc
  have hpending := pending_of_nextToken hc
  obtain rfl : c.nextToken.2 = c' := congrArg Prod.snd hc
  rcases h.cases with ⟨a, hca, hda, hpc, hpd⟩ | ⟨hrest, ls, a, hpc, hpd⟩
  · rw [hca] at hstarts
    obtain ⟨hle, hblank⟩ := hbefore
    rw [remaining_eq, hpending, hpc] at hle hblank
    obtain ⟨v, hv, hexchange⟩ := hstarts.exchange (by omega)
    have hstarts' := hexchange b' fun hnil => hblank (by rw [hv, hnil, List.nil_append])
    rw [← hda] at hstarts'
    obtain ⟨hd, hdrest⟩ := nextToken_of_starts hstarts'
    exact ⟨_, hd, of_here h.lineNumber hv hdrest hpc hpd⟩
  · rw [← hrest] at hstarts
    obtain ⟨hd, hdrest⟩ := nextToken_of_starts hstarts
    exact ⟨_, hd, of_ahead h.lineNumber hdrest hpc hpd⟩

/-- **A line that begins in front of the point is come to on both sides.** The line before it has
no more tokens. -/
theorem advance {c' e : Cursor} (h : Reframed b b' later later' c d)
    (hc : c.nextToken = (none, c')) (he : c'.advance = (true, e)) (hbefore : e.Before b b' later) :
    ∃ d' f, d.nextToken = (none, d') ∧ d'.advance = (true, f) ∧
      Reframed b b' later later' e f := by
  have hpending := pending_of_nextToken hc
  have hblank := (blank_of_nextToken_none hc).1
  rcases advance_cases c' with ⟨-, heq⟩ | ⟨line, rest, hp, heq⟩ | ⟨reason, rest, -, heq⟩
  · cases heq.symm.trans he
  · have hnumber : e.lineNumber = c.lineNumber + 1 := by
      obtain rfl := (Prod.mk.inj (heq.symm.trans he)).2
      obtain rfl : c.nextToken.2 = c' := congrArg Prod.snd hc
      rfl
    obtain ⟨hline, hrest⟩ : e.lineRest = line ∧ e.pending = rest := by
      obtain rfl := (Prod.mk.inj (heq.symm.trans he)).2
      exact ⟨rfl, rfl⟩
    rw [hpending] at hp
    rcases h.cases with ⟨a, -, -, hpc, -⟩ | ⟨hsame, ls, a, hpc, hpd⟩
    · -- the next line is behind the point already
      have hle := hbefore.le
      rw [remaining_eq, hline, hrest, ← hpc, hp] at hle
      simp only [pendingSize, List.foldr_cons, SourceLine.size] at hle
      omega
    · rw [← hsame] at hblank
      have hd := nextToken_of_blank hblank
      have hpending' := pending_of_nextToken hd
      have hdnumber : d.nextToken.2.lineNumber = c.lineNumber := h.lineNumber
      rw [hpd] at hpending'
      rw [hp] at hpc
      rcases ls with _ | ⟨first, ls⟩
      · obtain ⟨hfirst, hlater⟩ := List.cons.inj hpc
        refine ⟨_, _, hd, advance_of_text hpending', ?_⟩
        refine of_here ?_ (hline.trans (SourceLine.text.inj hfirst)) rfl (hrest.trans hlater) rfl
        rw [hnumber, hdnumber]
      · obtain ⟨rfl, hlater⟩ := List.cons.inj hpc
        refine ⟨_, _, hd, advance_of_text hpending', ?_⟩
        refine of_ahead ?_ hline.symm (hrest.trans hlater) rfl
        rw [hnumber, hdnumber]
  · cases heq.symm.trans he

/-- **A token in front of the point is pulled on both sides.** -/
theorem pull {c' : Cursor} (h : Reframed b b' later later' c d)
    (hc : c.pull = (some token, c')) (hbefore : c'.Before b b' later) :
    ∃ d', d.pull = (some token, d') ∧ Reframed b b' later later' c' d' := by
  fun_induction Cursor.pull c generalizing d with
  | case1 c token' e he =>
    obtain ⟨heq, rfl⟩ := Prod.mk.inj hc
    obtain rfl := Option.some.inj heq
    obtain ⟨d', hd, hreframed⟩ := h.nextToken he hbefore
    exact ⟨d', pull_of_nextToken hd, hreframed⟩
  | case2 c e he f hf ih =>
    have hle := remaining_le_of_pull hc
    obtain ⟨d', g, hd, hg, hreframed⟩ := h.advance he hf (hbefore.of_le hle)
    rw [pull_of_advance hd hg]
    exact ih hreframed hc
  | case3 c e he f hf => cases hc

/-- **Blanks in front of the point are passed over on both sides**, if something else stands in
front of it too. -/
theorem skipBlanks (h : Reframed b b' later later' c d)
    (hlt : b.length + pendingSize later < c.skipBlanks.2.remaining) :
    d.skipBlanks.1 = c.skipBlanks.1 ∧
      Reframed b b' later later' c.skipBlanks.2 d.skipBlanks.2 := by
  obtain ⟨hcfeed, hcrest⟩ := c.skipBlanks_lineRest
  obtain ⟨hdfeed, hdrest⟩ := d.skipBlanks_lineRest
  rw [hcfeed, hdfeed]
  rcases h.cases with ⟨a, hca, hda, hpc, hpd⟩ | ⟨hrest, ls, a, hpc, hpd⟩
  · have hlength : b.length < ((a ++ b).dropWhile isBlank).length := by
      have hpending : c.skipBlanks.2.pending = later := hpc
      rw [remaining_eq, hcrest, hca, hpending] at hlt
      omega
    -- the blanks end in front of the point
    have hne : a.dropWhile isBlank ≠ [] := by
      intro hnil
      rw [List.dropWhile_append, hnil] at hlength
      have hle := (List.dropWhile_sublist isBlank (l := b)).length_le
      simp only [List.isEmpty_nil, if_true] at hlength
      omega
    have hdrop : ∀ s : List Char, (a ++ s).dropWhile isBlank = a.dropWhile isBlank ++ s := by
      intro s
      rw [List.dropWhile_append, if_neg (by simpa using hne)]
    have htake : ∀ s : List Char, blanksOf (a ++ s) = blanksOf a := by
      intro s
      have hshort : (a.takeWhile isBlank).length ≠ a.length := by
        intro heq
        have hsplit := congrArg List.length
          (List.takeWhile_append_dropWhile (p := isBlank) (l := a))
        rw [List.length_append] at hsplit
        exact hne (List.length_eq_zero_iff.mp (by omega))
      rw [blanksOf, List.takeWhile_append, if_neg hshort, blanksOf]
    rw [hca, hda, htake, htake]
    refine ⟨rfl, of_here (a := a.dropWhile isBlank) h.lineNumber ?_ ?_ hpc hpd⟩
    · rw [hcrest, hca, hdrop]
    · rw [hdrest, hda, hdrop]
  · rw [hrest]
    refine ⟨rfl, of_ahead h.lineNumber ?_ hpc hpd⟩
    rw [hcrest, hdrest, hrest]

/-- **The tokens of a matrix** in front of the point are the same on both sides. -/
theorem elementToken {c' : Cursor} (h : Reframed b b' later later' c d)
    (hc : Bracketed.elementToken c = (some token, c')) (hbefore : c'.Before b b' later) :
    ∃ d', Bracketed.elementToken d = (some token, d') ∧ Reframed b b' later later' c' d' := by
  rcases hnext : c.nextToken with ⟨first, e⟩
  by_cases hfirst : first = some "["
  · subst hfirst
    rw [Bracketed.elementToken_of_open hnext] at hc
    have hle := remaining_le_of_nextToken hc
    obtain ⟨f, hf, hreframed⟩ := h.nextToken hnext (hbefore.of_le hle)
    obtain ⟨d', hd, hreframed'⟩ := hreframed.nextToken hc hbefore
    refine ⟨d', ?_, hreframed'⟩
    exact (Bracketed.elementToken_of_open hf).trans hd
  · rw [Bracketed.elementToken_of_ne hnext hfirst] at hc
    obtain ⟨rfl, rfl⟩ := Prod.mk.inj hc
    obtain ⟨d', hd, hreframed⟩ := h.nextToken hnext hbefore
    exact ⟨d', Bracketed.elementToken_of_ne hd hfirst, hreframed⟩

/-- **The lines of a matrix** that begin in front of the point are come to on both sides. -/
theorem elementToken_advance {c' e : Cursor} (h : Reframed b b' later later' c d)
    (hc : Bracketed.elementToken c = (none, c')) (he : c'.advance = (true, e))
    (hbefore : e.Before b b' later) :
    ∃ d' f, Bracketed.elementToken d = (none, d') ∧ d'.advance = (true, f) ∧
      Reframed b b' later later' e f := by
  rcases hnext : c.nextToken with ⟨first, g⟩
  by_cases hfirst : first = some "["
  · subst hfirst
    rw [Bracketed.elementToken_of_open hnext] at hc
    have hle := Nat.le_trans (Nat.le_of_lt (remaining_advance_lt he)) (remaining_le_of_nextToken hc)
    obtain ⟨g', hg', hreframed⟩ := h.nextToken hnext (hbefore.of_le hle)
    obtain ⟨d', f, hd, hf, hreframed'⟩ := hreframed.advance hc he hbefore
    refine ⟨d', f, ?_, hf, hreframed'⟩
    exact (Bracketed.elementToken_of_open hg').trans hd
  · rw [Bracketed.elementToken_of_ne hnext hfirst] at hc
    obtain ⟨rfl, rfl⟩ := Prod.mk.inj hc
    obtain ⟨d', f, hd, hf, hreframed⟩ := h.advance hnext he hbefore
    exact ⟨d', f, Bracketed.elementToken_of_ne hd hfirst, hf, hreframed⟩

end Reframed

end Cursor

/-! ### Readers -/

/-- **A reader that does not look ahead**: what it has read, and where it has stopped, stay the same
if the text behind its end is exchanged. -/
def Local {α : Type} (read : Cursor → Reading α) : Prop :=
  ∀ {b b' : List Char} {later later' : List SourceLine} {c d c' : Cursor} {x : α},
    Cursor.Reframed b b' later later' c d → read c = (.ok x, c') → c'.Before b b' later →
      ∃ d', read d = (.ok x, d') ∧ Cursor.Reframed b b' later later' c' d'

section Readers

variable {b b' : List Char} {later later' : List SourceLine} {c d c' : Cursor}

theorem Scalar.local_read {α : Type} (expected : Expected)
    {judge : String → Position → Except ParseError α} (hjudge : Comparison.layout.Judges judge) :
    Local (Scalar.read expected judge) := by
  intro b b' later later' c d c' x h hc hbefore
  rcases hnext : c.nextToken with ⟨_ | token, e⟩
  · rw [Scalar.read, hnext] at hc
    cases hc
  · rw [Scalar.read, hnext] at hc
    obtain ⟨hx, rfl⟩ := Prod.mk.inj hc
    obtain ⟨d', hd, hreframed⟩ := h.nextToken hnext hbefore
    refine ⟨d', ?_, hreframed⟩
    rw [Scalar.read, hd]
    exact Prod.ext (hjudge.ok hx rfl) rfl

namespace Bracketed

theorem nextToken_of_openBracket {start : Position} (h : openBracket c = (.ok start, d)) :
    c.nextToken = (some "[", d) := by
  rcases hnext : c.nextToken with ⟨token, e⟩
  by_cases htoken : token = some "["
  · subst htoken
    rw [openBracket, hnext] at h
    rw [(Prod.mk.inj h).2]
  · rw [openBracket_of_ne hnext htoken] at h
    cases h

/-- The bracket opens at another place, if that. -/
theorem exists_openBracket_of_reframed {start : Position}
    (h : Cursor.Reframed b b' later later' c d) (hc : openBracket c = (.ok start, c'))
    (hbefore : c'.Before b b' later) :
    ∃ start' d', openBracket d = (.ok start', d') ∧ Cursor.Reframed b b' later later' c' d' := by
  obtain ⟨d', hd, hreframed⟩ := h.nextToken (nextToken_of_openBracket hc) hbefore
  exact ⟨d.position, d', by simp only [openBracket, hd], hreframed⟩

theorem exists_elements_of_reframed {α : Type} {limit : Nat}
    {judge : String → Position → Except ParseError α} (hjudge : Comparison.layout.Judges judge)
    {start : Position} (start' : Position) {found xs : List α}
    (h : Cursor.Reframed b b' later later' c d)
    (hc : elements limit judge start found c = (.ok xs, c')) (hbefore : c'.Before b b' later) :
    ∃ d', elements limit judge start' found d = (.ok xs, d') ∧
      Cursor.Reframed b b' later later' c' d' := by
  -- a round that is not the last one leaves more to read than the last one does
  fun_induction elements limit judge start found c generalizing d with
  | case1 found c e he => cases hc
  | case2 found c e he =>
    obtain ⟨hxs, rfl⟩ := Prod.mk.inj hc
    obtain ⟨d', hd, hreframed⟩ := h.pull he hbefore
    refine ⟨d', ?_, hreframed⟩
    rw [elements_eq, hd]
    exact Prod.ext hxs rfl
  | case3 found c token e he hne hlimit => cases hc
  | case4 found c token e he hne hlimit fault hfault => cases hc
  | case5 found c token e he hne hlimit x hx ih =>
    have hle := remaining_elements_le limit judge start (x :: found) e
    rw [hc] at hle
    obtain ⟨f, hf, hreframed⟩ := h.pull he (hbefore.of_le hle)
    obtain ⟨d', hd, hreframed'⟩ := ih hreframed hc
    have hx' : judge token f.position = .ok x := hjudge.ok hx rfl
    refine ⟨d', ?_, hreframed'⟩
    simp only [elements_eq _ _ _ _ d, hf, if_neg hne, if_neg hlimit, hx']
    exact hd

theorem local_vector {α : Type} (limits : Limits)
    {judge : String → Position → Except ParseError α} (hjudge : Comparison.layout.Judges judge) :
    Local (vector limits judge) := by
  intro b b' later later' c d c' xs h hc hbefore
  rcases hopen : openBracket c with ⟨_ | start, e⟩
  · rw [vector, hopen] at hc
    cases hc
  · simp only [vector, hopen] at hc
    have hle := remaining_elements_le limits.tensorElements judge start [] e
    rw [hc] at hle
    obtain ⟨start', f, hf, hreframed⟩ := exists_openBracket_of_reframed h hopen (hbefore.of_le hle)
    obtain ⟨d', hd, hreframed'⟩ := exists_elements_of_reframed hjudge start' hreframed hc hbefore
    refine ⟨d', ?_, hreframed'⟩
    rw [vector, hf]
    exact hd

/-- The rows of a matrix end with a token. -/
theorem remaining_lt_of_rows {limit : Nat} {start : Position} {found : RowsFound}
    {m : Matrix Single} (h : rows limit start found c = (.ok m, d)) :
    d.remaining < c.remaining := by
  fun_induction rows limit start found c with
  | case1 found c e he f hf ih =>
    have hle := remaining_elementToken_le c
    have hlt := Cursor.remaining_advance_lt hf
    rw [he] at hle
    exact Nat.lt_trans (ih h) (Nat.lt_of_lt_of_le hlt hle)
  | case2 found c e he f hf => cases h
  | case3 found c e he =>
    obtain ⟨-, rfl⟩ := Prod.mk.inj h
    exact remaining_elementToken_lt he
  | case4 found c token e he hne hlimit => cases h
  | case5 found c token e he hne hlimit fault hfault => cases h
  | case6 found c token e he hne hlimit x hx f hf ih =>
    have hle := e.remaining_skipBlanks_le
    rw [hf] at hle
    exact Nat.lt_trans (Nat.lt_of_lt_of_le (ih h) hle) (remaining_elementToken_lt he)
  | case7 found c token e he hne hlimit x hx f hf ih =>
    have hle := e.remaining_skipBlanks_le
    rw [hf] at hle
    exact Nat.lt_trans (Nat.lt_of_lt_of_le (ih h) hle) (remaining_elementToken_lt he)

/-- An element of a matrix in front of the point, and the blanks behind it. -/
theorem exists_element_of_reframed {token : String} {e : Cursor} {x : Single}
    (h : Cursor.Reframed b b' later later' c d) (he : elementToken c = (some token, e))
    (hx : Scalar.float .single token e.position = .ok x) (hbefore : c'.Before b b' later)
    (hlt : c'.remaining < e.skipBlanks.2.remaining) :
    ∃ f, elementToken d = (some token, f) ∧ Scalar.float .single token f.position = .ok x ∧
      f.skipBlanks.1 = e.skipBlanks.1 ∧
      Cursor.Reframed b b' later later' e.skipBlanks.2 f.skipBlanks.2 := by
  have hle := Nat.le_trans (Nat.le_of_lt hlt) e.remaining_skipBlanks_le
  obtain ⟨f, hf, hreframed⟩ := h.elementToken he (hbefore.of_le hle)
  obtain ⟨hfeed, hreframed'⟩ := hreframed.skipBlanks (Nat.lt_of_le_of_lt hbefore.le hlt)
  exact ⟨f, hf, (Comparison.judges_float (K := .layout) _).ok hx rfl, hfeed, hreframed'⟩

theorem exists_rows_of_reframed {limit : Nat} {start : Position} (start' : Position)
    {found : RowsFound} {m : Matrix Single} (h : Cursor.Reframed b b' later later' c d)
    (hc : rows limit start found c = (.ok m, c')) (hbefore : c'.Before b b' later) :
    ∃ d', rows limit start' found d = (.ok m, d') ∧
      Cursor.Reframed b b' later later' c' d' := by
  -- blanks are passed over only where a token is still to come, so never up to the point
  fun_induction rows limit start found c generalizing d with
  | case1 found c e he f hf ih =>
    have hle := Nat.le_of_lt (remaining_lt_of_rows hc)
    obtain ⟨e', f', he', hf', hreframed⟩ := h.elementToken_advance he hf (hbefore.of_le hle)
    obtain ⟨d', hd, hreframed'⟩ := ih hreframed hc
    refine ⟨d', ?_, hreframed'⟩
    simp only [rows_eq _ _ _ d, he', hf']
    exact hd
  | case2 found c e he f hf => cases hc
  | case3 found c e he =>
    obtain ⟨hm, rfl⟩ := Prod.mk.inj hc
    obtain ⟨d', hd, hreframed⟩ := h.elementToken he hbefore
    have hfinish := Comparison.finish_mapError (K := .layout) found
      (show Comparison.layout.left e.position = Comparison.layout.right d'.position from rfl)
    refine ⟨d', ?_, hreframed⟩
    simp only [rows_eq _ _ _ d, hd, if_true]
    rw [hm] at hfinish
    cases hm' : finish found d'.position with
    | error fault =>
      rw [hm'] at hfinish
      cases hfinish
    | ok m' =>
      rw [hm'] at hfinish
      rw [Except.ok.inj hfinish]
  | case4 found c token e he hne hlimit => cases hc
  | case5 found c token e he hne hlimit fault hfault => cases hc
  | case6 found c token e he hne hlimit x hx f hf ih =>
    have hlt := remaining_lt_of_rows hc
    obtain ⟨hfeed, rfl⟩ : e.skipBlanks.1 = true ∧ e.skipBlanks.2 = f := Prod.mk.inj hf
    obtain ⟨g, hg, hx', hfeed', hreframed⟩ := exists_element_of_reframed h he hx hbefore hlt
    obtain ⟨d', hd, hreframed'⟩ := ih hreframed hc
    refine ⟨d', ?_, hreframed'⟩
    simp only [rows_eq _ _ _ d, hg, if_neg hne, if_neg hlimit, hx', hfeed', hfeed, if_true]
    exact hd
  | case7 found c token e he hne hlimit x hx f hf ih =>
    have hlt := remaining_lt_of_rows hc
    obtain ⟨hfeed, rfl⟩ : e.skipBlanks.1 = false ∧ e.skipBlanks.2 = f := Prod.mk.inj hf
    obtain ⟨g, hg, hx', hfeed', hreframed⟩ := exists_element_of_reframed h he hx hbefore hlt
    obtain ⟨d', hd, hreframed'⟩ := ih hreframed hc
    refine ⟨d', ?_, hreframed'⟩
    simp only [rows_eq _ _ _ d, hg, if_neg hne, if_neg hlimit, hx', hfeed', hfeed,
      Bool.false_eq_true, if_false]
    exact hd

theorem local_matrix (limits : Limits) : Local (matrix limits) := by
  intro b b' later later' c d c' m h hc hbefore
  rcases hopen : openBracket c with ⟨_ | start, e⟩
  · rw [matrix, hopen] at hc
    cases hc
  · simp only [matrix, hopen] at hc
    have hle := Nat.le_of_lt (remaining_lt_of_rows hc)
    obtain ⟨start', f, hf, hreframed⟩ := exists_openBracket_of_reframed h hopen (hbefore.of_le hle)
    obtain ⟨d', hd, hreframed'⟩ := exists_rows_of_reframed start' hreframed hc hbefore
    refine ⟨d', ?_, hreframed'⟩
    rw [matrix, hf]
    exact hd

end Bracketed

namespace Literal

theorem remaining_le_of_read {limits : Limits} {l : Literal} {value : Except ParseError Value}
    (h : l.read limits c = (value, d)) : d.remaining ≤ c.remaining := by
  simpa [h] using remaining_read_le limits l c

theorem local_wrap {α : Type} {make : α → Value} {read : Cursor → Reading α} (h : Local read) :
    Local fun c => wrap make (read c) := by
  intro b b' later later' c d c' value hreframed hc hbefore
  obtain ⟨x, rfl, hx⟩ := eq_ok_of_wrap hc
  obtain ⟨d', hd, hreframed'⟩ := h hreframed hx hbefore
  refine ⟨d', ?_, hreframed'⟩
  dsimp only
  rw [hd]
  rfl

/-- **Literals are read locally.** -/
theorem local_read (limits : Limits) (l : Literal) : Local (l.read limits) := by
  cases l with
  | bool => exact local_wrap (Scalar.local_read _ Comparison.judges_bool)
  | int => exact local_wrap (Scalar.local_read _ Comparison.judges_integer)
  | float => exact local_wrap (Scalar.local_read _ (Comparison.judges_float _))
  | ints => exact local_wrap (Bracketed.local_vector limits Comparison.judges_integer)
  | floats => exact local_wrap (Bracketed.local_vector limits (Comparison.judges_float _))
  | matrix => exact local_wrap (Bracketed.local_matrix limits)

end Literal

namespace Component

variable {limits : Limits} {ends : List String} {kind : Kind} {name : String}
  {values : List (Rule × Value)} {e : Cursor}

theorem remaining_le_of_reads (h : Reads limits ends kind name c values e) :
    e.remaining ≤ c.remaining := by
  induction h with
  | none => exact Nat.le_refl _
  | skip hpull _ _ _ ih =>
    rw [remaining_noteSkipped] at ih
    exact Nat.le_trans ih (Cursor.remaining_le_of_pull hpull)
  | value hpull _ _ hread _ ih =>
    have hle := Literal.remaining_le_of_read hread
    exact Nat.le_trans ih (Nat.le_trans hle (Cursor.remaining_le_of_pull hpull))

theorem reframed_noteSkipped (token : String) (h : Cursor.Reframed b b' later later' c d) :
    Cursor.Reframed b b' later later' (noteSkipped name token c) (noteSkipped name token d) := by
  unfold noteSkipped
  split
  · exact ⟨h.lineNumber, h.view⟩
  · exact h

/-- **The way through a body does not depend on what follows.** -/
theorem Reads.exists_reframed (hreads : Reads limits ends kind name c values e)
    (h : Cursor.Reframed b b' later later' c d) (hbefore : e.Before b b' later) :
    ∃ f, Reads limits ends kind name d values f ∧ Cursor.Reframed b b' later later' e f := by
  induction hreads generalizing d with
  | none => exact ⟨d, .none, h⟩
  | skip hpull hends hrule hreads ih =>
    have hle := remaining_le_of_reads hreads
    rw [remaining_noteSkipped] at hle
    obtain ⟨d', hd, hreframed⟩ := h.pull hpull (hbefore.of_le hle)
    obtain ⟨f, hf, hreframed'⟩ := ih (reframed_noteSkipped _ hreframed) hbefore
    exact ⟨f, .skip hd hends hrule hf, hreframed'⟩
  | value hpull hends hrule hread hreads ih =>
    have hle := remaining_le_of_reads hreads
    have hle' := Literal.remaining_le_of_read hread
    obtain ⟨d', hd, hreframed⟩ := h.pull hpull (hbefore.of_le (Nat.le_trans hle hle'))
    obtain ⟨d'', hd', hreframed'⟩ :=
      Literal.local_read limits _ hreframed hread (hbefore.of_le hle)
    obtain ⟨f, hf, hreframed''⟩ := ih hreframed' hbefore
    exact ⟨f, .value hd hends hrule hd' hf, hreframed''⟩

end Component

end Readers

end NnetText
