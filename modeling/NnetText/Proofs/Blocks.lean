import NnetText.Proofs.Concatenation
import NnetText.Proofs.MatrixGrammar

/-!
# Bodies made of blocks

The body of a declaration is usually laid out in blocks: a tag of the table, its value behind it,
and then a new line. A `Block` is such a text together with what it says, and says so in terms of
the tokens of its text alone: the tag comes first, a literal of the form that the tag asks for
stands behind it (`Literal.Stands`), and nothing stands behind the literal. Which literals these are
is known from the grammars of vectors and matrices, and they are exactly those that can be read
(`Literal.stands_iff`).

A `Body` is a row of blocks with a token behind them that ends the body. Reading it writes the
values of the blocks in turn and stops at that token (`Component.Body.exists_collect`), wherever the
body stands, as long as it begins on a line of its own. Over each block the reading goes in step
with a reading of the block by itself, which comes to its end; there the next block begins.
-/

namespace NnetText

/-! ### Literals ahead -/

/-- **A scalar is next on the line**, and `d` is the cursor just behind it. -/
def Scalar.IsNext {α : Type} (judge : String → Position → Except ParseError α) (c : Cursor) (x : α)
    (d : Cursor) : Prop :=
  ∃ token line, c.lineAhead = (token, d) :: line ∧ judge token d.position = .ok x

theorem Scalar.read_eq_ok_iff {α : Type} {expected : Expected}
    {judge : String → Position → Except ParseError α} {c d : Cursor} {x : α} :
    read expected judge c = (.ok x, d) ↔ IsNext judge c x d := by
  unfold read
  rcases hline : c.lineAhead with _ | ⟨⟨token, e⟩, line⟩
  · obtain ⟨e, hnext, -⟩ := Cursor.nextToken_of_lineAhead_nil hline
    rw [hnext]
    constructor
    · intro h
      cases h
    · rintro ⟨token, line, heq, -⟩
      cases hline.symm.trans heq
  · obtain ⟨hnext, -⟩ := Cursor.nextToken_of_lineAhead hline
    rw [hnext]
    constructor
    · intro h
      obtain ⟨hx, rfl⟩ := Prod.mk.inj h
      exact ⟨token, line, hline, hx⟩
    · rintro ⟨token', line', heq, hx⟩
      obtain ⟨hhead, -⟩ := List.cons.inj (hline.symm.trans heq)
      obtain ⟨rfl, rfl⟩ := Prod.mk.inj hhead
      exact Prod.ext hx rfl

namespace Literal

/-- **A literal stands ahead** of a cursor, with the given value; `d` is the cursor just
behind it. -/
def Stands (limits : Limits) (c : Cursor) (value : Value) (d : Cursor) : Literal → Prop
  | bool => ∃ b, value = .bool b ∧ Scalar.IsNext Scalar.bool c b d
  | int => ∃ n, value = .int n ∧ Scalar.IsNext Scalar.integer c n d
  | float => ∃ x, value = .float x ∧ Scalar.IsNext (Scalar.float .double) c x d
  | ints => ∃ ns, value = .ints ns ∧
    Bracketed.IsVector limits.tensorElements Scalar.integer c ns d
  | floats => ∃ xs, value = .floats xs ∧
    Bracketed.IsVector limits.tensorElements (Scalar.float .single) c xs d
  | matrix => ∃ m, value = .matrix m ∧ Bracketed.IsMatrix limits.tensorElements c m d

theorem wrap_eq_ok_iff {α : Type} {make : α → Value} {r : Reading α} {value : Value} {d : Cursor} :
    wrap make r = (.ok value, d) ↔ ∃ x, value = make x ∧ r = (.ok x, d) := by
  refine ⟨eq_ok_of_wrap, ?_⟩
  rintro ⟨x, rfl, rfl⟩
  rfl

/-- **The literals that stand ahead are those that can be read**, if line feeds stand at the end of
their lines. -/
theorem stands_iff {limits : Limits} {c d : Cursor} {value : Value} (hc : c.FeedsLast)
    (l : Literal) : l.Stands limits c value d ↔ l.read limits c = (.ok value, d) := by
  have hvector {α : Type} (judge : String → Position → Except ParseError α) (xs : List α) :=
    (Reading.settled Bracketed.vector_of_isVector Bracketed.fst_vector_of_fault
      (Bracketed.isVector_or_fault limits.tensorElements judge c)).1 xs d
  have hmatrix (m : Matrix Single) :=
    (Reading.settled (Bracketed.matrix_of_isMatrix hc) (Bracketed.fst_matrix_of_fault hc)
      (Bracketed.isMatrix_or_fault limits.tensorElements c)).1 m d
  cases l with
  | bool | int | float => simp only [Stands, read, wrap_eq_ok_iff, Scalar.read_eq_ok_iff]
  | ints | floats => simp only [Stands, read, wrap_eq_ok_iff, hvector]
  | matrix => simp only [Stands, read, wrap_eq_ok_iff, hmatrix]

end Literal

/-! ### Tokens ahead and tokens pulled -/

namespace Cursor

variable {c d : Cursor} {token : String}

/-- A token that is pulled was the first ahead. -/
theorem ahead_of_pull (h : c.pull = (some token, d)) : c.ahead = (token, d) :: d.ahead := by
  rcases hahead : c.ahead with _ | ⟨⟨token', d'⟩, rest⟩
  · obtain ⟨e, he⟩ := pull_of_ahead_nil hahead
    cases h.symm.trans he
  · obtain ⟨hpull, hrest⟩ := pull_of_ahead hahead
    obtain ⟨rfl, rfl⟩ : token = token' ∧ d = d' := by simpa using h.symm.trans hpull
    rw [hrest]

theorem ahead_of_pull_none (h : c.pull.1 = none) : c.ahead = [] := by
  rcases hahead : c.ahead with _ | ⟨⟨token, d⟩, rest⟩
  · rfl
  · obtain ⟨hpull, -⟩ := pull_of_ahead hahead
    rw [hpull] at h
    cases h

/-- **A text is ahead of a cursor** whose line has no words left: its lines are the next to come,
and `later` are those behind them. -/
structure Faces (c : Cursor) (text : List Char) (later : List SourceLine) : Prop where
  line : c.lineWords = []
  pending : c.pending = SourceLine.ofText text ++ later

theorem faces_ofText (text : List Char) : (ofText text).Faces text [] :=
  ⟨words_nil, (List.append_nil _).symm⟩

/-- **The first token of a text is pulled as from the text alone.** -/
theorem Faces.exists_pull {text : List Char} {later : List SourceLine} (h : c.Faces text later)
    (hpull : (ofText text).pull = (some token, d)) :
    ∃ e, c.pull = (some token, e) ∧ Framed c.lineNumber later d e := by
  -- the text with the later lines behind it, read from its beginning
  have hstart : Framed 0 later (ofText text) { pending := SourceLine.ofText text ++ later } :=
    ⟨rfl, rfl, rfl⟩
  obtain ⟨d', hd', hframe⟩ := (Comparison.lawful_frame 0 later).exists_pull hstart hpull
  have hblank : lineWords { pending := SourceLine.ofText text ++ later } = [] := words_nil
  rcases pull_of_blank hblank h.line h.pending (Nat.zero_add _).symm with
    ⟨e, -, he, -⟩ | ⟨token', e, e', he, he', hframe'⟩
  · cases hd'.symm.trans he
  · obtain ⟨rfl, rfl⟩ : token = token' ∧ d' = e := by simpa using hd'.symm.trans he
    refine ⟨e', he', hframe'.place.trans hframe.place, ?_, ?_⟩
    · rw [hframe'.lineNumber, hframe.lineNumber, Nat.add_zero]
    · rw [hframe'.pending, hframe.pending, List.append_nil]

end Cursor

namespace Component

/-! ### Blocks -/

/-- **A block of a body**: a tag of the table and its value behind it, on lines of their own. -/
structure Block (limits : Limits) (kind : Kind) where
  rule : Rule
  value : Value
  text : List Char
  listed : rule ∈ kind.table
  lines : text.getLast? = some '\n'
  spelled : ∃ d e rest, (Cursor.ofText text).ahead = (rule.tag, d) :: rest ∧
    rule.literal.Stands limits d value e ∧ e.ahead = []

/-- No tag has two rules in a table. -/
theorem rule?_of_mem {kind : Kind} {rule : Rule} (h : rule ∈ kind.table) :
    kind.rule? rule.tag = some rule := by
  have hall : ∀ kind ∈ Kind.all, ∀ rule ∈ kind.table, kind.rule? rule.tag = some rule := by decide
  exact hall kind (by cases kind <;> decide) rule h

namespace Block

variable {limits : Limits} {kind : Kind}

/-- A block is read by itself as its tag and its value, and nothing is left then. -/
theorem exists_read (b : Block limits kind) :
    ∃ d e f, (Cursor.ofText b.text).pull = (some b.rule.tag, d) ∧
      b.rule.literal.read limits d = (.ok b.value, e) ∧ e.pull = (none, f) ∧ e.Readable := by
  obtain ⟨d, e, rest, hahead, hstands, hend⟩ := b.spelled
  obtain ⟨hpull, -⟩ := Cursor.pull_of_ahead hahead
  have horderly := (Cursor.moves_of_pull hpull).orderly (Cursor.orderly_ofText b.text)
  have hread := (Literal.stands_iff horderly.feedsLast b.rule.literal).mp hstands
  obtain ⟨f, hf⟩ := Cursor.pull_of_ahead_nil hend
  exact ⟨d, e, f, hpull, hread, hf,
    ((b.rule.literal.moves_read limits d).of_eq hread).readable horderly.readable⟩

/-- The value of a block has the form that its tag asks for. -/
theorem yields (b : Block limits kind) : b.rule.literal.Yields limits b.value := by
  obtain ⟨d, e, f, -, hread, -⟩ := b.exists_read
  exact Literal.yields_of_read hread

/-- **A text that is read as a block is one**: its tag is read first, then its value, and nothing is
left then. -/
def ofReading (rule : Rule) (value : Value) (text : List Char)
    (h : rule ∈ kind.table ∧ text.getLast? = some '\n' ∧
      (Cursor.ofText text).pull.1 = some rule.tag ∧
      (rule.literal.read limits (Cursor.ofText text).pull.2).1 = .ok value ∧
      (rule.literal.read limits (Cursor.ofText text).pull.2).2.pull.1 = none) :
    Block limits kind where
  rule := rule
  value := value
  text := text
  listed := h.1
  lines := h.2.1
  spelled := by
    obtain ⟨-, -, htag, hread, hend⟩ := h
    have horderly := (Cursor.moves_pull (.ofText text)).orderly (Cursor.orderly_ofText text)
    have hstands := (Literal.stands_iff horderly.feedsLast rule.literal).mpr (Prod.ext hread rfl)
    exact ⟨_, _, _, Cursor.ahead_of_pull (Prod.ext htag rfl), hstands,
      Cursor.ahead_of_pull_none hend⟩

/-- **Over a block, reading writes its value**, and comes to the lines behind the block. -/
theorem exists_collect {ends : List String} {record : Component} {c : Cursor}
    {later : List SourceLine} (b : Block limits kind) (hkind : record.kind = kind)
    (htag : b.rule.tag ∉ ends) (hc : c.Faces b.text later) :
    ∃ d : Cursor, d.lineWords = [] ∧ d.pending = later ∧
      collect limits ends record c =
        collect limits ends (record.setAttribute b.rule.key b.value) d := by
  obtain ⟨d, e, f, hpull, hread, hend, hreadable⟩ := b.exists_read
  obtain ⟨d', hpull', hframe⟩ := hc.exists_pull hpull
  -- the literal is read in step with the one that is read by itself
  have hfollows := (Comparison.lawful_frame c.lineNumber later).literal limits b.rule.literal hframe
  rw [hread] at hfollows
  rcases hread' : b.rule.literal.read limits d' with ⟨r, e'⟩
  rw [hread'] at hfollows
  cases hfollows with
  | ok hvalue hframe' =>
    subst hvalue
    obtain ⟨g, hseam, hline, hpending, -⟩ := hframe'.exists_seam hreadable hend
    refine ⟨g, hline, hpending, ?_⟩
    have hrule : record.kind.rule? b.rule.tag = some b.rule := by
      rw [hkind]
      exact rule?_of_mem b.listed
    rw [collect_eq, hpull']
    simp only [if_neg htag, hrule, hread']
    exact collect_congr hseam

end Block

/-! ### Bodies -/

/-- **A body made of blocks**: the blocks, and behind them a text that starts with a token that ends
the body. None of the tags of the blocks does. -/
structure Body (limits : Limits) (ends : List String) (kind : Kind) where
  blocks : List (Block limits kind)
  terminator : String
  closing : List Char
  tags : ∀ b ∈ blocks, b.rule.tag ∉ ends
  terminates : terminator ∈ ends
  closes : (words closing).head? = some terminator

namespace Body

variable {limits : Limits} {ends : List String} {kind : Kind}

/-- The text of a body. -/
def text (b : Body limits ends kind) : List Char := b.blocks.flatMap Block.text ++ b.closing

/-- The values of a body, each with the rule of its tag. -/
def values (b : Body limits ends kind) : List (Rule × Value) :=
  b.blocks.map fun block => (block.rule, block.value)

/-- The values of a body fit the table. -/
theorem yields (b : Body limits ends kind) :
    ∀ r ∈ b.values, r.1 ∈ kind.table ∧ r.1.literal.Yields limits r.2 := by
  intro r hr
  obtain ⟨block, -, rfl⟩ := List.mem_map.mp hr
  exact ⟨block.listed, block.yields⟩

/-- **Over blocks, reading writes their values in turn**, and comes to the text behind them. -/
theorem exists_collect_blocks {record : Component} {blocks : List (Block limits kind)}
    {closing : List Char} {c : Cursor} {later : List SourceLine} (hkind : record.kind = kind)
    (htags : ∀ b ∈ blocks, b.rule.tag ∉ ends)
    (hc : c.Faces (blocks.flatMap Block.text ++ closing) later) :
    ∃ d : Cursor, d.Faces closing later ∧
      collect limits ends record c =
        collect limits ends (record.write (blocks.map fun b => (b.rule, b.value))) d := by
  induction blocks generalizing record c with
  | nil => exact ⟨c, hc, rfl⟩
  | cons b blocks ih =>
    obtain ⟨htag, htags⟩ := List.forall_mem_cons.mp htags
    have hfirst : c.Faces b.text
        (SourceLine.ofText (blocks.flatMap Block.text ++ closing) ++ later) := by
      refine ⟨hc.line, ?_⟩
      rw [hc.pending, List.flatMap_cons, List.append_assoc, ofText_append (Or.inr b.lines),
        List.append_assoc]
    obtain ⟨d, hline, hpending, hcollect⟩ := b.exists_collect hkind htag hfirst
    have hkind' : (record.setAttribute b.rule.key b.value).kind = kind := hkind
    obtain ⟨e, he, hrest⟩ := ih hkind' htags ⟨hline, hpending⟩
    exact ⟨e, he, hcollect.trans hrest⟩

/-- **A body made of blocks is read to its end**, and its values are written in turn. -/
theorem exists_collect (b : Body limits ends kind) {record : Component} {c : Cursor}
    {later : List SourceLine} (hkind : record.kind = kind) (hc : c.Faces b.text later) :
    ∃ d, collect limits ends record c = (.ok b.terminator, record.write b.values, d) := by
  obtain ⟨d, hd, hcollect⟩ := exists_collect_blocks hkind b.tags hc
  -- the token that ends the body is the first of the text behind the blocks
  obtain ⟨e, hpull⟩ : ∃ e, (Cursor.ofText b.closing).pull = (some b.terminator, e) := by
    have hwords := Cursor.unreadWords_ofText b.closing
    have hcloses := b.closes
    rcases hpull : (Cursor.ofText b.closing).pull with ⟨_ | token, e⟩
    · obtain ⟨hnil, -⟩ := Cursor.unreadWords_of_pull_none (Cursor.readable_ofText _) hpull
      rw [← hwords, hnil] at hcloses
      cases hcloses
    · rw [← hwords, Cursor.unreadWords_of_pull hpull, List.head?_cons] at hcloses
      obtain rfl := Option.some.inj hcloses
      exact ⟨e, rfl⟩
  obtain ⟨f, hf, -⟩ := hd.exists_pull hpull
  refine ⟨f, ?_⟩
  rw [hcollect, collect_eq, hf]
  simp only [if_pos b.terminates]
  rfl

end Body

end Component

end NnetText
