import NnetText.Proofs.Faults
import NnetText.Proofs.Tracking

/-!
# Lines asked for in vain

A reader asks for a line when it has used up the current one, and it may ask in vain: at the end
of the input, or in front of a line that cannot be decoded. This file says that it asks in vain
at most once. Then the reading is over, and it is over for want of input; a reading that ends in
any other way has been given every line it asked for.

`Cursor.Passes` is what lies between two places of a reading that has not asked in vain: lines
were handed over, no line failed, and nothing was noticed but tags passed over.
`Cursor.Leads` says how a reading ends, and `Section.exists_since_run` how a whole run does. Since
a run also notes each component when it is complete, the trail it leaves is known exactly, up to
the tags passed over.
-/

namespace NnetText

/-- Whether a notice is about more than a tag passed over. -/
def Notice.isMilestone : Notice → Bool
  | skippedTag _ _ _ => false
  | unreadableLine _ | componentRead _ _ _ _ _ | sectionRead _ _ => true

namespace Cursor

/-! ### Passing without a refusal -/

/-- The notices that are about more than tags passed over, newest first. -/
def milestones (c : Cursor) : List Notice := c.trail.filter Notice.isMilestone

/-- The lines between two places were handed over one by one, and counted. -/
def Takes (c d : Cursor) : Prop :=
  ∃ taken : List (List Char), c.pending = taken.map .text ++ d.pending ∧
    d.lineNumber = c.lineNumber + taken.length

/-- **From one place to another without asking in vain.** -/
structure Passes (c d : Cursor) : Prop where
  takes : c.Takes d
  failure : d.failure = c.failure
  milestones : d.milestones = c.milestones

section

variable {c d e : Cursor}

theorem Takes.refl (c : Cursor) : c.Takes c := ⟨[], rfl, rfl⟩

theorem Takes.trans (h : c.Takes d) (h' : d.Takes e) : c.Takes e := by
  obtain ⟨taken, hpending, hnumber⟩ := h
  obtain ⟨taken', hpending', hnumber'⟩ := h'
  refine ⟨taken ++ taken', ?_, ?_⟩
  · rw [hpending, hpending', List.map_append, List.append_assoc]
  · rw [hnumber', hnumber, List.length_append, Nat.add_assoc]

theorem Passes.refl (c : Cursor) : c.Passes c := ⟨.refl c, rfl, rfl⟩

theorem Passes.trans (h : c.Passes d) (h' : d.Passes e) : c.Passes e :=
  ⟨h.takes.trans h'.takes, h'.failure.trans h.failure, h'.milestones.trans h.milestones⟩

end

variable {c d e : Cursor} {token : Option String}

theorem passes_of_nextToken (h : c.nextToken = (token, d)) : c.Passes d := by
  obtain rfl : c.nextToken.2 = d := congrArg Prod.snd h
  exact ⟨⟨[], rfl, rfl⟩, rfl, rfl⟩

theorem passes_skipBlanks (c : Cursor) : c.Passes c.skipBlanks.2 :=
  ⟨⟨[], rfl, rfl⟩, rfl, rfl⟩

theorem passes_of_advance (h : c.advance = (true, d)) : c.Passes d := by
  rcases advance_cases c with ⟨-, heq⟩ | ⟨line, rest, hp, heq⟩ | ⟨reason, rest, hp, heq⟩
  · rw [heq] at h
    cases h
  · obtain rfl := (Prod.mk.inj (heq.symm.trans h)).2
    exact ⟨⟨[line], hp, rfl⟩, rfl, rfl⟩
  · rw [heq] at h
    cases h

theorem passes_of_pull {token : String} (h : c.pull = (some token, d)) : c.Passes d := by
  fun_induction pull c with
  | case1 c token' d' hd =>
    obtain ⟨-, rfl⟩ := Prod.mk.inj h
    exact passes_of_nextToken hd
  | case2 c d' hd e he ih =>
    exact ((passes_of_nextToken hd).trans (passes_of_advance he)).trans (ih h)
  | case3 c d' hd e he => cases h

/-- **A token is missing only where a line has been asked for in vain.** -/
theorem exists_passes_of_pull_none (h : c.pull = (none, e)) :
    ∃ d, c.Passes d ∧ d.advance = (false, e) := by
  fun_induction pull c with
  | case1 c token d hd => cases h
  | case2 c d hd e' he ih =>
    obtain ⟨f, hf, hadvance⟩ := ih h
    exact ⟨f, ((passes_of_nextToken hd).trans (passes_of_advance he)).trans hf, hadvance⟩
  | case3 c d hd e' he =>
    obtain ⟨-, rfl⟩ := Prod.mk.inj h
    exact ⟨d, passes_of_nextToken hd, he⟩

/-! ### How a reading ends -/

/-- **How a reading ends.** It succeeds or finds a fault without having asked for a line in
vain, or it has just done so and fails for want of input. -/
inductive Leads (c : Cursor) {α : Type} : Reading α → Prop
  | ok {a : α} {d : Cursor} (h : c.Passes d) : Leads c (.ok a, d)
  | fault {e : ParseError} {d : Cursor} (he : e.isTruncation = false) (h : c.Passes d) :
      Leads c (.error e, d)
  | dry {e : ParseError} {d d' : Cursor} (he : e.isTruncation = true) (h : c.Passes d)
      (hd : d.advance = (false, d')) : Leads c (.error e, d')

theorem Passes.leads {α : Type} {r : Reading α} (h : c.Passes d) (hr : d.Leads r) :
    c.Leads r := by
  cases hr with
  | ok h' => exact .ok (h.trans h')
  | fault he h' => exact .fault he (h.trans h')
  | dry he h' hd => exact .dry he (h.trans h') hd

/-- Readings that fail alike end alike, whatever they would have yielded. -/
theorem Leads.of_error {α β : Type} {e : ParseError}
    (h : c.Leads ((.error e, d) : Reading α)) : c.Leads ((.error e, d) : Reading β) := by
  cases h with
  | fault he h => exact .fault he h
  | dry he h hd => exact .dry he h hd

theorem Leads.passes {α : Type} {a : α} (h : c.Leads (.ok a, d)) : c.Passes d := by
  cases h with
  | ok h => exact h

end Cursor

/-! ### Literals -/

namespace Scalar

theorem Fault.isTruncation {token : String} {place : Position} {e : ParseError}
    (h : Fault token place e) : e.isTruncation = false := by
  cases h <;> rfl

theorem leads_read {α : Type} (expected : Expected)
    {judge : String → Position → Except ParseError α} (hjudge : IsJudge judge) (c : Cursor) :
    c.Leads (read expected judge c) := by
  unfold read
  split
  · rename_i d hd
    exact .fault rfl (Cursor.passes_of_nextToken hd)
  · rename_i token d hd
    have hpass := Cursor.passes_of_nextToken hd
    cases hx : judge token d.position with
    | error e => exact .fault (hjudge hx).isTruncation hpass
    | ok x => exact .ok hpass

end Scalar

namespace Bracketed

variable {c d : Cursor}

theorem leads_openBracket (c : Cursor) : c.Leads (openBracket c) := by
  unfold openBracket
  split
  · rename_i d hd
    exact .ok (Cursor.passes_of_nextToken hd)
  · rename_i token d hd
    exact .fault rfl (Cursor.passes_of_nextToken hd)

theorem leads_elements {α : Type} (limit : Nat)
    {judge : String → Position → Except ParseError α} (hjudge : Scalar.IsJudge judge)
    (start : Position) (found : List α) (c : Cursor) :
    c.Leads (elements limit judge start found c) := by
  fun_induction elements limit judge start found c with
  | case1 found c d h =>
    obtain ⟨e, hpass, hadvance⟩ := Cursor.exists_passes_of_pull_none h
    exact .dry rfl hpass hadvance
  | case2 found c d h => exact .ok (Cursor.passes_of_pull h)
  | case3 found c token d h hne hlimit => exact .fault rfl (Cursor.passes_of_pull h)
  | case4 found c token d h hne hlimit e he =>
    exact .fault (hjudge he).isTruncation (Cursor.passes_of_pull h)
  | case5 found c token d h hne hlimit x hx ih => exact (Cursor.passes_of_pull h).leads ih

theorem leads_vector {α : Type} (limits : Limits)
    {judge : String → Position → Except ParseError α} (hjudge : Scalar.IsJudge judge)
    (c : Cursor) : c.Leads (vector limits judge c) := by
  have hopen := leads_openBracket c
  unfold vector
  split
  · rename_i e d hd
    rw [hd] at hopen
    exact hopen.of_error
  · rename_i start d hd
    rw [hd] at hopen
    exact hopen.passes.leads (leads_elements _ hjudge start [] d)

theorem passes_of_elementToken {token : Option String} (h : elementToken c = (token, d)) :
    c.Passes d := by
  unfold elementToken at h
  split at h
  · rename_i e he
    exact (Cursor.passes_of_nextToken he).trans (Cursor.passes_of_nextToken h)
  · exact Cursor.passes_of_nextToken h

/-- Rows that do not fit together are a fault, wherever the matrix ends. -/
theorem leads_finish (found : RowsFound) (place : Position) (h : c.Passes d) :
    c.Leads (finish found place, d) := by
  unfold finish
  split
  · exact .ok h
  · exact .fault rfl h

theorem leads_rows (limit : Nat) (start : Position) (found : RowsFound) (c : Cursor) :
    c.Leads (rows limit start found c) := by
  fun_induction rows limit start found c with
  | case1 found c d h e he ih =>
    exact ((passes_of_elementToken h).trans (Cursor.passes_of_advance he)).leads ih
  | case2 found c d h e he => exact .dry rfl (passes_of_elementToken h) he
  | case3 found c d h => exact leads_finish found _ (passes_of_elementToken h)
  | case4 found c token d h hne hlimit => exact .fault rfl (passes_of_elementToken h)
  | case5 found c token d h hne hlimit e he =>
    exact .fault (Scalar.isJudge_float _ he).isTruncation (passes_of_elementToken h)
  | case6 found c token d h hne hlimit x hx e he ih
  | case7 found c token d h hne hlimit x hx e he ih =>
    have hskip := d.passes_skipBlanks
    rw [he] at hskip
    exact ((passes_of_elementToken h).trans hskip).leads ih

theorem leads_matrix (limits : Limits) (c : Cursor) : c.Leads (matrix limits c) := by
  have hopen := leads_openBracket c
  unfold matrix
  split
  · rename_i e d hd
    rw [hd] at hopen
    exact hopen.of_error
  · rename_i start d hd
    rw [hd] at hopen
    exact hopen.passes.leads (leads_rows _ start .none d)

end Bracketed

namespace Literal

theorem leads_wrap {α : Type} {make : α → Value} {c : Cursor} {r : Reading α} (h : c.Leads r) :
    c.Leads (wrap make r) := by
  cases h with
  | ok h => exact .ok h
  | fault he h => exact .fault he h
  | dry he h hd => exact .dry he h hd

theorem leads_read (limits : Limits) (l : Literal) (c : Cursor) :
    c.Leads (l.read limits c) := by
  cases l with
  | bool => exact leads_wrap (Scalar.leads_read _ Scalar.isJudge_bool c)
  | int => exact leads_wrap (Scalar.leads_read _ Scalar.isJudge_integer c)
  | float => exact leads_wrap (Scalar.leads_read _ (Scalar.isJudge_float _) c)
  | ints => exact leads_wrap (Bracketed.leads_vector limits Scalar.isJudge_integer c)
  | floats => exact leads_wrap (Bracketed.leads_vector limits (Scalar.isJudge_float _) c)
  | matrix => exact leads_wrap (Bracketed.leads_matrix limits c)

end Literal

/-! ### Declarations -/

namespace Component

theorem passes_noteSkipped (component token : String) (c : Cursor) :
    c.Passes (noteSkipped component token c) := by
  unfold noteSkipped
  split
  · exact ⟨⟨[], rfl, rfl⟩, rfl, rfl⟩
  · exact .refl c

theorem leads_collect (limits : Limits) (ends : List String) (record : Component) (c : Cursor) :
    c.Leads ((collect limits ends record c).1, (collect limits ends record c).2.2) := by
  fun_induction collect limits ends record c with
  | case1 record c d h =>
    obtain ⟨e, hpass, hadvance⟩ := Cursor.exists_passes_of_pull_none h
    exact .dry rfl hpass hadvance
  | case2 record c token d h hmem => exact .ok (Cursor.passes_of_pull h)
  | case3 record c token d h hmem hrule ih =>
    exact ((Cursor.passes_of_pull h).trans (passes_noteSkipped _ _ _)).leads ih
  | case4 record c token d h hmem rule hrule e e' hread =>
    have hlead := rule.literal.leads_read limits d
    rw [hread] at hlead
    exact (Cursor.passes_of_pull h).leads hlead.of_error
  | case5 record c token d h hmem rule hrule value e' hread ih =>
    have hlead := rule.literal.leads_read limits d
    rw [hread] at hlead
    exact ((Cursor.passes_of_pull h).trans hlead.passes).leads ih

theorem leads_readAttributes (limits : Limits) (ends : List String) (record : Component)
    (c : Cursor) :
    c.Leads ((readAttributes limits ends record c).1,
      (readAttributes limits ends record c).2.2) := by
  have hlead := leads_collect limits ends record c
  have hbody := bodyOutcome limits ends record c
  generalize readAttributes limits ends record c = r at hbody ⊢
  cases hbody with
  | broken body =>
    rw [body] at hlead
    exact hlead
  | inconsistent body =>
    rw [body] at hlead
    exact .fault rfl hlead.passes
  | finished body =>
    rw [body] at hlead
    exact hlead

end Component

namespace Section

theorem leads_typeTag (c : Cursor) : c.Leads (typeTag c) := by
  have htag := typeTagOutcome c
  generalize typeTag c = r at htag ⊢
  cases htag with
  | missing next | invalid next => exact .fault rfl (Cursor.passes_of_nextToken next)
  | valid next => exact .ok (Cursor.passes_of_nextToken next)

/-- **A declaration that can be read notes its component**, and nothing else but tags passed
over; one that cannot ends like any reading. -/
theorem declaration_cases (limits : Limits) (id : Nat) (c : Cursor) :
    (∃ component next d, c.Passes d ∧
      declaration limits id c = (.ok (component, next), d.note (completed component))) ∨
    ∃ e d, c.Leads ((.error e, d) : Reading (Component × Bool)) ∧
      declaration limits id c = (.error e, d) := by
  have htag {name tag : String} {d d' : Cursor} (next : c.nextToken = (some name, d))
      (type : typeTag d = (.ok tag, d')) : c.Passes d' := by
    have hlead := leads_typeTag d
    rw [type] at hlead
    exact (Cursor.passes_of_nextToken next).trans hlead.passes
  have hdeclaration := declarationOutcome limits id c
  generalize declaration limits id c = r at hdeclaration ⊢
  cases hdeclaration with
  | unnamed next => exact Or.inr ⟨_, _, .fault rfl (Cursor.passes_of_nextToken next), rfl⟩
  | @untyped _ d _ _ next type =>
    have hlead := leads_typeTag d
    rw [type] at hlead
    exact Or.inr ⟨_, _, ((Cursor.passes_of_nextToken next).leads hlead).of_error, rfl⟩
  | unsupported next type => exact Or.inr ⟨_, _, .fault rfl (htag next type), rfl⟩
  | @broken _ tag _ d' _ record _ _ next type _ body =>
    have hlead := Component.leads_readAttributes limits [Tag.closing tag, Tag.opener] record d'
    rw [body] at hlead
    exact Or.inr ⟨_, _, ((htag next type).leads hlead).of_error, rfl⟩
  | @complete _ tag _ _ d' _ record _ next type _ body =>
    have hlead := Component.leads_readAttributes limits [Tag.closing tag, Tag.opener] record d'
    rw [body] at hlead
    exact Or.inl ⟨_, _, _, (htag next type).trans hlead.passes, rfl⟩

/-! ### Runs -/

/-- **What lies between the beginning of a run and a later place of it**, with the components
complete by then, newest first. -/
structure Since (c : Cursor) (found : List Component) (d : Cursor) : Prop where
  takes : c.Takes d
  failure : d.failure = c.failure
  milestones : d.milestones = found.map completed ++ c.milestones
  ids : found.reverse.map Component.id = List.range found.length

namespace Since

variable {c d e : Cursor} {found : List Component}

theorem start (c : Cursor) : Since c [] c := ⟨.refl c, rfl, rfl, rfl⟩

theorem passes (h : Since c found d) (hd : d.Passes e) : Since c found e :=
  ⟨h.takes.trans hd.takes, hd.failure.trans h.failure, hd.milestones.trans h.milestones, h.ids⟩

theorem complete (h : Since c found d) {component : Component}
    (hid : component.id = found.length) :
    Since c (component :: found) (d.note (completed component)) where
  takes := h.takes
  failure := h.failure
  milestones := by
    have hnote : (d.note (completed component)).milestones =
        completed component :: d.milestones := rfl
    rw [hnote, h.milestones, List.map_cons, List.cons_append]
  ids := by
    rw [List.reverse_cons, List.map_append, h.ids, List.length_cons, List.range_succ, ← hid]
    rfl

end Since

variable {limits : Limits} {c : Cursor} {s t : Stage}

theorem Since.of_step (h : Since c s.found s.cursor) (hstep : s.step limits = .inl t) :
    Since c t.found t.cursor := by
  rcases Stage.step_eq_inl hstep with ⟨-, -, component, next, d, hd, rfl⟩ |
    ⟨-, token, d, hd, -, rfl⟩
  · rcases declaration_cases limits s.found.length s.cursor with
      ⟨component', next', d', hpass, heq⟩ | ⟨e, d', -, heq⟩
    · obtain ⟨⟨rfl, rfl⟩, rfl⟩ : (component' = component ∧ next' = next) ∧
          d'.note (completed component') = d := by simpa using heq.symm.trans hd
      obtain ⟨-, -, -, -, hid, -⟩ := exists_unreadWords_of_declaration heq
      exact (h.passes hpass).complete hid
    · cases heq.symm.trans hd
  · exact h.passes (Cursor.passes_of_pull hd)

/-- **Wherever a run gets, it has not asked in vain.** -/
theorem since_of_reaches (h : Stage.Reaches limits (Stage.start c) s) :
    Since c s.found s.cursor := by
  induction h with
  | refl => exact .start c
  | tail _ hstep ih => exact ih.of_step hstep

/-- **A run asks in vain at most once**, and then it ends for want of input. -/
theorem exists_since_run (limits : Limits) (c : Cursor) :
    ∃ d, Since c ((Stage.start c).run limits).found d ∧
      (((Stage.start c).run limits).cause.isTruncation = false ∧
          ((Stage.start c).run limits).cursor = d ∨
        ((Stage.start c).run limits).cause.isTruncation = true ∧
          d.advance = (false, ((Stage.start c).run limits).cursor)) := by
  obtain ⟨s, hreach, hstop⟩ := Stage.exists_reaches_stop limits (Stage.start c)
  have hs := since_of_reaches hreach
  generalize (Stage.start c).run limits = stop at hstop ⊢
  rcases Stage.step_eq_inr hstop with ⟨-, -, rfl⟩ | ⟨-, -, e, d, hd, rfl⟩ | ⟨-, d, hd, rfl⟩ |
    ⟨-, d, hd, rfl⟩
  · exact ⟨s.cursor, hs, Or.inl ⟨rfl, rfl⟩⟩
  · rcases declaration_cases limits s.found.length s.cursor with
      ⟨component, next, d', -, heq⟩ | ⟨e', d', hlead, heq⟩
    · cases heq.symm.trans hd
    · obtain ⟨rfl, rfl⟩ : e' = e ∧ d' = d := by simpa using heq.symm.trans hd
      cases hlead with
      | fault he hpass => exact ⟨d', hs.passes hpass, Or.inl ⟨he, rfl⟩⟩
      | dry he hpass hadvance => exact ⟨_, hs.passes hpass, Or.inr ⟨he, hadvance⟩⟩
  · obtain ⟨d', hpass, hadvance⟩ := Cursor.exists_passes_of_pull_none hd
    exact ⟨d', hs.passes hpass, Or.inr ⟨rfl, hadvance⟩⟩
  · exact ⟨d, hs.passes (Cursor.passes_of_pull hd), Or.inl ⟨rfl, rfl⟩⟩

end Section

end NnetText
