import Mathlib.Logic.Relation
import NnetText.Proofs.Outcomes

/-!
# How a cursor moves

A reader does four things to its cursor: it takes a token off the current line, passes
over blanks, asks for the next line, leaves a notice. `Cursor.Step` lists them, and
`Cursor.Moves` is any number of them in turn.

The point of the file is that *every* reader moves its cursor, whether it succeeds or
fails. A fact about cursors that survives the four steps therefore survives all of
reading (`Cursor.Moves.of_step`), and is proved by looking at four cases rather than at
the readers one after another.
-/

namespace NnetText

namespace Cursor

/-! ### Steps and moves -/

/-- **One step of a cursor.** -/
inductive Step : Cursor → Cursor → Prop
  /-- A token is taken, or found to be missing. -/
  | token (c : Cursor) : Step c c.nextToken.2
  /-- Blanks are passed over. -/
  | blanks (c : Cursor) : Step c c.skipBlanks.2
  /-- A line is asked for. -/
  | line (c : Cursor) : Step c c.advance.2
  /-- A notice is left. -/
  | note (c : Cursor) (n : Notice) : Step c (c.note n)

/-- **A move**: any number of steps. -/
abbrev Moves : Cursor → Cursor → Prop := Relation.ReflTransGen Step

/-- **What survives a step survives a move.** -/
theorem Moves.of_step {P : Cursor → Prop} (hstep : ∀ c d, Step c d → P c → P d)
    {c d : Cursor} (h : c.Moves d) (hc : P c) : P d := by
  induction h with
  | refl => exact hc
  | tail _ hlast ih => exact hstep _ _ hlast ih

/-- A move to where a reading ends, when the reading is given by its result. -/
theorem Moves.of_eq {α : Type} {c d : Cursor} {r : α × Cursor} {x : α} (hr : c.Moves r.2)
    (h : r = (x, d)) : c.Moves d := by
  rwa [h] at hr

theorem moves_nextToken (c : Cursor) : c.Moves c.nextToken.2 := .single (.token c)

theorem moves_skipBlanks (c : Cursor) : c.Moves c.skipBlanks.2 := .single (.blanks c)

theorem moves_advance (c : Cursor) : c.Moves c.advance.2 := .single (.line c)

theorem moves_note (c : Cursor) (n : Notice) : c.Moves (c.note n) := .single (.note c n)

/-- At the end of a line, a cursor moves on to the next one. -/
theorem moves_of_advance {c d e : Cursor} {token : Option String} {more : Bool}
    (hd : c.nextToken = (token, d)) (he : d.advance = (more, e)) : c.Moves e :=
  (c.moves_nextToken.of_eq hd).trans (d.moves_advance.of_eq he)

theorem moves_pull (c : Cursor) : c.Moves c.pull.2 := by
  fun_induction pull c with
  | case1 c token d hd => exact c.moves_nextToken.of_eq hd
  | case2 c d hd e he ih => exact (moves_of_advance hd he).trans ih
  | case3 c d hd e he => exact moves_of_advance hd he

theorem moves_of_pull {c d : Cursor} {token : Option String} (h : c.pull = (token, d)) :
    c.Moves d :=
  c.moves_pull.of_eq h

end Cursor

/-! ### Literals -/

theorem Scalar.moves_read {α : Type} (expected : Expected)
    (judge : String → Position → Except ParseError α) (c : Cursor) :
    c.Moves (Scalar.read expected judge c).2 := by
  have h := c.moves_nextToken
  unfold Scalar.read
  split <;> simp_all

namespace Bracketed

theorem moves_openBracket (c : Cursor) : c.Moves (openBracket c).2 := by
  have h := c.moves_nextToken
  unfold openBracket
  split <;> simp_all

theorem moves_elements {α : Type} (limit : Nat)
    (judge : String → Position → Except ParseError α) (start : Position) (found : List α)
    (c : Cursor) : c.Moves (elements limit judge start found c).2 := by
  fun_induction elements limit judge start found c with
  | case1 found c d h => exact Cursor.moves_of_pull h
  | case2 found c d h => exact Cursor.moves_of_pull h
  | case3 found c token d h hne hlimit => exact Cursor.moves_of_pull h
  | case4 found c token d h hne hlimit e he => exact Cursor.moves_of_pull h
  | case5 found c token d h hne hlimit x hx ih => exact (Cursor.moves_of_pull h).trans ih

theorem moves_vector {α : Type} (limits : Limits)
    (judge : String → Position → Except ParseError α) (c : Cursor) :
    c.Moves (vector limits judge c).2 := by
  unfold vector
  split
  · rename_i e d hd
    exact (moves_openBracket c).of_eq hd
  · rename_i start d hd
    exact ((moves_openBracket c).of_eq hd).trans (moves_elements _ _ _ _ _)

theorem moves_elementToken (c : Cursor) : c.Moves (elementToken c).2 := by
  unfold elementToken
  split
  · rename_i d hd
    exact (c.moves_nextToken.of_eq hd).trans d.moves_nextToken
  · exact c.moves_nextToken

theorem moves_rows (limit : Nat) (start : Position) (found : RowsFound) (c : Cursor) :
    c.Moves (rows limit start found c).2 := by
  fun_induction rows limit start found c with
  | case1 found c d h e he ih =>
    exact (((moves_elementToken c).of_eq h).trans (d.moves_advance.of_eq he)).trans ih
  | case2 found c d h e he =>
    exact ((moves_elementToken c).of_eq h).trans (d.moves_advance.of_eq he)
  | case3 found c d h => exact (moves_elementToken c).of_eq h
  | case4 found c token d h hne hlimit => exact (moves_elementToken c).of_eq h
  | case5 found c token d h hne hlimit e he => exact (moves_elementToken c).of_eq h
  | case6 found c token d h hne hlimit x hx e he ih =>
    exact (((moves_elementToken c).of_eq h).trans (d.moves_skipBlanks.of_eq he)).trans ih
  | case7 found c token d h hne hlimit x hx e he ih =>
    exact (((moves_elementToken c).of_eq h).trans (d.moves_skipBlanks.of_eq he)).trans ih

theorem moves_matrix (limits : Limits) (c : Cursor) : c.Moves (matrix limits c).2 := by
  unfold matrix
  split
  · rename_i e d hd
    exact (moves_openBracket c).of_eq hd
  · rename_i start d hd
    exact ((moves_openBracket c).of_eq hd).trans (moves_rows _ _ _ _)

end Bracketed

theorem Literal.moves_read (limits : Limits) (l : Literal) (c : Cursor) :
    c.Moves (l.read limits c).2 := by
  cases l with
  | bool => exact Scalar.moves_read .bool Scalar.bool c
  | int => exact Scalar.moves_read .integer Scalar.integer c
  | float => exact Scalar.moves_read .float (Scalar.float .double) c
  | ints => exact Bracketed.moves_vector limits Scalar.integer c
  | floats => exact Bracketed.moves_vector limits (Scalar.float .single) c
  | matrix => exact Bracketed.moves_matrix limits c

/-! ### Declarations -/

namespace Component

theorem moves_noteSkipped (component token : String) (c : Cursor) :
    c.Moves (noteSkipped component token c) := by
  unfold noteSkipped
  split
  · exact c.moves_note _
  · exact .refl

theorem moves_collect (limits : Limits) (ends : List String) (record : Component)
    (c : Cursor) : c.Moves (collect limits ends record c).2.2 := by
  fun_induction collect limits ends record c with
  | case1 record c d h => exact Cursor.moves_of_pull h
  | case2 record c token d h hmem => exact Cursor.moves_of_pull h
  | case3 record c token d h hmem hrule ih =>
    exact ((Cursor.moves_of_pull h).trans (moves_noteSkipped _ _ _)).trans ih
  | case4 record c token d h hmem rule hrule e e' hread =>
    exact (Cursor.moves_of_pull h).trans ((rule.literal.moves_read limits d).of_eq hread)
  | case5 record c token d h hmem rule hrule value e' hread ih =>
    exact ((Cursor.moves_of_pull h).trans
      ((rule.literal.moves_read limits d).of_eq hread)).trans ih

theorem moves_readAttributes (limits : Limits) (ends : List String) (record : Component)
    (c : Cursor) : c.Moves (readAttributes limits ends record c).2.2 := by
  have h := moves_collect limits ends record c
  have hbody := bodyOutcome limits ends record c
  generalize readAttributes limits ends record c = r at hbody ⊢
  cases hbody with
  | broken body | inconsistent body | finished body => exact h.of_eq (congrArg Prod.snd body)

end Component

namespace Section

theorem moves_typeTag (c : Cursor) : c.Moves (typeTag c).2 := by
  have htag := typeTagOutcome c
  generalize typeTag c = r at htag ⊢
  cases htag with
  | missing next | invalid next | valid next => exact c.moves_nextToken.of_eq next

theorem moves_declaration (limits : Limits) (id : Nat) (c : Cursor) :
    c.Moves (declaration limits id c).2 := by
  have hdeclaration := declarationOutcome limits id c
  generalize declaration limits id c = r at hdeclaration ⊢
  have htag {name tag : String} {d d' : Cursor} (next : c.nextToken = (some name, d))
      (type : typeTag d = (.ok tag, d')) : c.Moves d' :=
    (c.moves_nextToken.of_eq next).trans ((moves_typeTag d).of_eq type)
  have hbody {tag : String} {record after : Component} {d' f : Cursor}
      {r : Except ParseError String}
      (body : record.readAttributes limits [Tag.closing tag, Tag.opener] d' = (r, after, f)) :
      d'.Moves f :=
    (Component.moves_readAttributes limits _ record d').of_eq (congrArg Prod.snd body)
  cases hdeclaration with
  | unnamed next => exact c.moves_nextToken.of_eq next
  | untyped next type => exact (c.moves_nextToken.of_eq next).trans ((moves_typeTag _).of_eq type)
  | unsupported next type => exact htag next type
  | broken next type _ body => exact (htag next type).trans (hbody body)
  | complete next type _ body =>
    exact ((htag next type).trans (hbody body)).trans (Cursor.moves_note _ _)

end Section

end NnetText
