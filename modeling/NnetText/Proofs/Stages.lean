import Mathlib.Logic.Relation
import NnetText.Proofs.Consumption

/-!
# Reading a section step by step

`Section.read` is written as two loops, one that looks for an opener and one that reads
declarations. To speak of what has been read *so far*, and of how a run came to its end,
this file unrolls them into single steps over an explicit state.

A `Section.Stage` holds the components found, the cursor, and whether an opener has just
been passed. `Section.Stage.step` is one step of the run: behind an opener a declaration
is read, anywhere else one token is passed over. A step leads to another stage, or to a
`Section.Stop` that says why the run is over. `Section.Stage.run` goes on to the end, and
`Section.read_eq_run` says that this is what reading a section is.

What the two kinds of step can do is said once, in `Section.Stage.step_eq_inl` and
`Section.Stage.step_eq_inr`; everything about runs is derived from these two.
-/

namespace NnetText

namespace Section

/-! ### Stages and stops -/

/-- **Why a run is over.** -/
inductive Cause where
  /-- The input has no more tokens. -/
  | inputEnd
  /-- The tag that ends the section was met. -/
  | sectionEnd
  /-- Reading failed. -/
  | failure (e : ParseError)
deriving DecidableEq, Repr

/-- **Where a run stands** between two steps. -/
structure Stage where
  /-- The components found so far, newest first. -/
  found : List Component
  /-- Whether an opener has just been passed. -/
  opened : Bool
  cursor : Cursor
deriving DecidableEq, Repr

/-- **Where a run ended**, with the components complete by then, newest first. -/
structure Stop where
  found : List Component
  cause : Cause
  cursor : Cursor
deriving DecidableEq, Repr

/-- What a section reads as when the run over it ends here. -/
def Stop.result (s : Stop) : Reading (List Component) :=
  match s.cause with
  | .failure e => (.error e, s.cursor)
  | _ => close s.found s.cursor

namespace Stage

/-- The stage in front of everything. -/
def start (c : Cursor) : Stage := ⟨[], false, c⟩

/-- **One step of a run.** -/
def step (limits : Limits) (s : Stage) : Stage ⊕ Stop :=
  if s.opened then
    if limits.components ≤ s.found.length then
      .inr ⟨s.found, .failure (.tooManyComponents limits.components), s.cursor⟩
    else
      match declaration limits s.found.length s.cursor with
      | (.error e, d) => .inr ⟨s.found, .failure e, d⟩
      | (.ok (component, next), d) => .inl ⟨component :: s.found, next, d⟩
  else
    match s.cursor.pull with
    | (none, d) => .inr ⟨s.found, .inputEnd, d⟩
    | (some token, d) =>
      if token = Tag.sectionEnd then .inr ⟨s.found, .sectionEnd, d⟩
      else .inl ⟨s.found, token == Tag.opener, d⟩

/-! ### What a step can do -/

section Step

variable {limits : Limits} {s t : Stage} {stop : Stop} {d : Cursor}

theorem step_of_full (hs : s.opened = true) (hfull : limits.components ≤ s.found.length) :
    s.step limits =
      .inr ⟨s.found, .failure (.tooManyComponents limits.components), s.cursor⟩ := by
  simp [step, hs, hfull]

theorem step_of_error {e : ParseError} (hs : s.opened = true)
    (hroom : s.found.length < limits.components)
    (hd : declaration limits s.found.length s.cursor = (.error e, d)) :
    s.step limits = .inr ⟨s.found, .failure e, d⟩ := by
  simp [step, hs, Nat.not_le.mpr hroom, hd]

theorem step_of_declaration {component : Component} {next : Bool} (hs : s.opened = true)
    (hroom : s.found.length < limits.components)
    (hd : declaration limits s.found.length s.cursor = (.ok (component, next), d)) :
    s.step limits = .inl ⟨component :: s.found, next, d⟩ := by
  simp [step, hs, Nat.not_le.mpr hroom, hd]

theorem step_of_inputEnd (hs : s.opened = false) (hd : s.cursor.pull = (none, d)) :
    s.step limits = .inr ⟨s.found, .inputEnd, d⟩ := by
  simp [step, hs, hd]

theorem step_of_sectionEnd (hs : s.opened = false)
    (hd : s.cursor.pull = (some Tag.sectionEnd, d)) :
    s.step limits = .inr ⟨s.found, .sectionEnd, d⟩ := by
  simp [step, hs, hd]

theorem step_of_token {token : String} (hs : s.opened = false)
    (hd : s.cursor.pull = (some token, d)) (hne : token ≠ Tag.sectionEnd) :
    s.step limits = .inl ⟨s.found, token == Tag.opener, d⟩ := by
  simp [step, hs, hd, hne]

/-- **A step that goes on** has read a declaration behind an opener, or passed over one
token elsewhere. -/
theorem step_eq_inl (h : s.step limits = .inl t) :
    (s.opened = true ∧ s.found.length < limits.components ∧ ∃ component next d,
      declaration limits s.found.length s.cursor = (.ok (component, next), d) ∧
        t = ⟨component :: s.found, next, d⟩) ∨
    (s.opened = false ∧ ∃ token d, s.cursor.pull = (some token, d) ∧ token ≠ Tag.sectionEnd ∧
      t = ⟨s.found, token == Tag.opener, d⟩) := by
  unfold step at h
  split at h
  · rename_i hopened
    split at h
    · simp at h
    · rename_i hroom
      split at h
      · simp at h
      · rename_i component next d hd
        exact Or.inl ⟨hopened, by omega, component, next, d, hd, (Sum.inl.inj h).symm⟩
  · rename_i hopened
    split at h
    · simp at h
    · rename_i token d hd
      split at h
      · simp at h
      · rename_i hne
        exact Or.inr ⟨by simpa using hopened, token, d, hd, hne, (Sum.inl.inj h).symm⟩

/-- **A step that ends the run** has met one declaration too many, a fault in one, the
end of the input or the end of the section. -/
theorem step_eq_inr (h : s.step limits = .inr stop) :
    (s.opened = true ∧ limits.components ≤ s.found.length ∧
      stop = ⟨s.found, .failure (.tooManyComponents limits.components), s.cursor⟩) ∨
    (s.opened = true ∧ s.found.length < limits.components ∧ ∃ e d,
      declaration limits s.found.length s.cursor = (.error e, d) ∧
        stop = ⟨s.found, .failure e, d⟩) ∨
    (s.opened = false ∧ ∃ d, s.cursor.pull = (none, d) ∧ stop = ⟨s.found, .inputEnd, d⟩) ∨
    (s.opened = false ∧ ∃ d, s.cursor.pull = (some Tag.sectionEnd, d) ∧
      stop = ⟨s.found, .sectionEnd, d⟩) := by
  unfold step at h
  split at h
  · rename_i hopened
    split at h
    · rename_i hfull
      exact Or.inl ⟨hopened, hfull, (Sum.inr.inj h).symm⟩
    · rename_i hroom
      split at h
      · rename_i e d hd
        exact Or.inr (Or.inl ⟨hopened, by omega, e, d, hd, (Sum.inr.inj h).symm⟩)
      · simp at h
  · rename_i hopened
    have hclosed : s.opened = false := by simpa using hopened
    split at h
    · rename_i d hd
      exact Or.inr (Or.inr (Or.inl ⟨hclosed, d, hd, (Sum.inr.inj h).symm⟩))
    · rename_i token d hd
      split at h
      · rename_i heq
        exact Or.inr (Or.inr (Or.inr ⟨hclosed, d, heq ▸ hd, (Sum.inr.inj h).symm⟩))
      · simp at h

/-- A step that ends the run finds nothing more. -/
theorem found_of_stop (h : s.step limits = .inr stop) : stop.found = s.found := by
  rcases step_eq_inr h with ⟨-, -, rfl⟩ | ⟨-, -, e, d, -, rfl⟩ | ⟨-, d, -, rfl⟩ |
    ⟨-, d, -, rfl⟩ <;> rfl

/-- A step that goes on leaves less to read. -/
theorem remaining_lt_of_step (h : s.step limits = .inl t) :
    t.cursor.remaining < s.cursor.remaining := by
  rcases step_eq_inl h with ⟨-, -, component, next, d, hd, rfl⟩ | ⟨-, token, d, hd, -, rfl⟩
  · exact remaining_declaration_lt hd
  · exact Cursor.remaining_pull_lt hd

end Step

/-! ### Runs -/

/-- **A run to its end.** -/
def run (limits : Limits) (s : Stage) : Stop :=
  match _h : s.step limits with
  | .inl t => t.run limits
  | .inr stop => stop
termination_by s.cursor.remaining
decreasing_by exact remaining_lt_of_step _h

section Run

variable {limits : Limits} {s t : Stage} {stop : Stop}

theorem run_of_step (h : s.step limits = .inl t) : s.run limits = t.run limits := by
  rw [run]
  split
  · rename_i u hu
    obtain rfl : t = u := Sum.inl.inj (h.symm.trans hu)
    rfl
  · rename_i stop hstop
    rw [h] at hstop
    cases hstop

theorem run_of_stop (h : s.step limits = .inr stop) : s.run limits = stop := by
  rw [run]
  split
  · rename_i u hu
    rw [h] at hu
    cases hu
  · rename_i stop' hstop
    exact Sum.inr.inj (hstop.symm.trans h)

/-- A run passes through a stage. -/
abbrev Reaches (limits : Limits) : Stage → Stage → Prop :=
  Relation.ReflTransGen (fun s t => s.step limits = .inl t)

theorem run_eq_of_reaches (h : Reaches limits s t) : s.run limits = t.run limits := by
  induction h with
  | refl => rfl
  | tail _ hstep ih => rw [ih, run_of_step hstep]

/-- **Every run comes to a stop**, at a stage it reaches. -/
theorem exists_reaches_stop (limits : Limits) (s : Stage) :
    ∃ t, Reaches limits s t ∧ t.step limits = .inr (s.run limits) := by
  fun_induction run limits s with
  | case1 s t hstep ih =>
    obtain ⟨u, hreach, hstop⟩ := ih
    exact ⟨u, hreach.head hstep, hstop⟩
  | case2 s stop hstop => exact ⟨s, .refl, hstop⟩

/-- A run is determined by its first step. -/
theorem run_congr (h : s.step limits = t.step limits) : s.run limits = t.run limits := by
  cases ht : t.step limits with
  | inl u => rw [run_of_step (h.trans ht), run_of_step ht]
  | inr stop => rw [run_of_stop (h.trans ht), run_of_stop ht]

/-- **A run moves its cursor.** -/
theorem moves_of_reaches (h : Reaches limits s t) : s.cursor.Moves t.cursor := by
  induction h with
  | refl => exact .refl
  | @tail u _ _ hstep ih =>
    refine ih.trans ?_
    rcases step_eq_inl hstep with ⟨-, -, component, next, d, hd, rfl⟩ | ⟨-, token, d, hd, -, rfl⟩
    · exact (moves_declaration limits u.found.length u.cursor).of_eq hd
    · exact Cursor.moves_of_pull hd

/-- **A run keeps what has been found.** -/
theorem found_suffix_run (limits : Limits) (s : Stage) : s.found <:+ (s.run limits).found := by
  fun_induction run limits s with
  | case1 s t hstep ih =>
    rcases step_eq_inl hstep with ⟨-, -, component, next, d, -, rfl⟩ | ⟨-, token, d, -, -, rfl⟩
    · exact (List.suffix_cons component s.found).trans ih
    · exact ih
  | case2 s stop hstop =>
    exact found_of_stop hstop ▸ List.suffix_rfl

/-- **A run adds what declarations yield**, and nothing else. -/
theorem forall_found_run {P : Component → Prop}
    (hP : ∀ {id c component next d}, declaration limits id c = (.ok (component, next), d) →
      P component)
    (hs : ∀ component ∈ s.found, P component) :
    ∀ component ∈ (s.run limits).found, P component := by
  fun_induction run limits s with
  | case1 s t hstep ih =>
    apply ih
    rcases step_eq_inl hstep with ⟨-, -, component, next, d, hd, rfl⟩ | ⟨-, token, d, -, -, rfl⟩
    · exact List.forall_mem_cons.mpr ⟨hP hd, hs⟩
    · exact hs
  | case2 s stop hstop =>
    rw [found_of_stop hstop]
    exact hs

end Run

end Stage

/-! ### Reading a section is a run -/

/-- Looking for an opener is a part of the run. -/
theorem result_run_seekOpener (limits : Limits) (found : List Component) (c : Cursor) :
    (Stage.run limits ⟨found, false, c⟩).result =
      match seekOpener c with
      | (true, d) => (Stage.run limits ⟨found, true, d⟩).result
      | (false, d) => close found d := by
  fun_induction seekOpener c with
  | case1 c d h =>
    rw [Stage.run_of_stop (Stage.step_of_inputEnd rfl h)]
    rfl
  | case2 c d h =>
    rw [Stage.run_of_stop (Stage.step_of_sectionEnd rfl h)]
    rfl
  | case3 c d h hend =>
    rw [Stage.run_of_step (Stage.step_of_token rfl h hend), beq_self_eq_true]
  | case4 c token d h hend hopen ih =>
    rw [Stage.run_of_step (Stage.step_of_token rfl h hend), beq_eq_false_iff_ne.mpr hopen, ih]

/-- Reading declarations is a part of the run. -/
theorem declarations_eq_run (limits : Limits) (found : List Component) (c : Cursor) :
    declarations limits found c = (Stage.run limits ⟨found, true, c⟩).result := by
  fun_induction declarations limits found c with
  | case1 found c hfull =>
    rw [Stage.run_of_stop (Stage.step_of_full rfl hfull)]
    rfl
  | case2 found c hroom e d h =>
    rw [Stage.run_of_stop (Stage.step_of_error rfl (Nat.lt_of_not_le hroom) h)]
    rfl
  | case3 found c hroom component d h ih =>
    rw [Stage.run_of_step (Stage.step_of_declaration rfl (Nat.lt_of_not_le hroom) h), ih]
  | case4 found c hroom component d h e hseek ih =>
    -- from behind the declaration the run itself looks for the next opener
    rw [Stage.run_of_step (Stage.step_of_declaration rfl (Nat.lt_of_not_le hroom) h),
      result_run_seekOpener, hseek]
    exact ih
  | case5 found c hroom component d h e hseek =>
    rw [Stage.run_of_step (Stage.step_of_declaration rfl (Nat.lt_of_not_le hroom) h),
      result_run_seekOpener, hseek]

/-- **Reading a section is a run over it.** -/
theorem read_eq_run (limits : Limits) (c : Cursor) :
    read limits c = ((Stage.start c).run limits).result := by
  rw [Stage.start, result_run_seekOpener, read]
  rcases seekOpener c with ⟨_ | _, d⟩
  · rfl
  · exact declarations_eq_run limits [] d

/-- A section that can be read is read to the end of the input or to the end of the
section, and its components are those found on the way. -/
theorem run_of_read_ok {limits : Limits} {c : Cursor} {components : List Component}
    (h : (read limits c).1 = .ok components) :
    ((Stage.start c).run limits).found.reverse = components ∧
      (((Stage.start c).run limits).cause = .inputEnd ∨
        ((Stage.start c).run limits).cause = .sectionEnd) := by
  rw [read_eq_run, Stop.result] at h
  cases hcause : ((Stage.start c).run limits).cause with
  | failure e =>
    rw [hcause] at h
    cases h
  | inputEnd =>
    rw [hcause] at h
    exact ⟨Except.ok.inj h, Or.inl rfl⟩
  | sectionEnd =>
    rw [hcause] at h
    exact ⟨Except.ok.inj h, Or.inr rfl⟩

/-- **What holds of whatever a declaration yields** holds of all components of a section. -/
theorem forall_of_read {limits : Limits} {c : Cursor} {components : List Component}
    {P : Component → Prop}
    (hP : ∀ {id c component next d}, declaration limits id c = (.ok (component, next), d) →
      P component)
    (h : (read limits c).1 = .ok components) : ∀ component ∈ components, P component := by
  obtain ⟨rfl, -⟩ := run_of_read_ok h
  intro component hmem
  exact Stage.forall_found_run hP (fun _ hnone => absurd hnone List.not_mem_nil) component
    (List.mem_reverse.mp hmem)

/-! ### The run over a text -/

/-- **Where the run over a text ends.** -/
def ending (limits : Limits) (text : List Char) : Stop :=
  (Stage.start (.ofText text)).run limits

theorem exists_reaches_ending (limits : Limits) (text : List Char) :
    ∃ s, Stage.Reaches limits (Stage.start (.ofText text)) s ∧
      s.step limits = .inr (ending limits text) :=
  Stage.exists_reaches_stop limits _

theorem read_ofText (limits : Limits) (text : List Char) :
    read limits (.ofText text) = (ending limits text).result :=
  read_eq_run limits (.ofText text)

theorem ending_of_read_ok {limits : Limits} {text : List Char} {components : List Component}
    (h : (read limits (.ofText text)).1 = .ok components) :
    (ending limits text).found.reverse = components ∧
      ((ending limits text).cause = .inputEnd ∨ (ending limits text).cause = .sectionEnd) :=
  run_of_read_ok h

theorem ending_of_read_error {limits : Limits} {text : List Char} {e : ParseError} :
    (read limits (.ofText text)).1 = .error e ↔ (ending limits text).cause = .failure e := by
  rw [read_ofText, Stop.result]
  cases (ending limits text).cause <;> simp [close]

/-- A run that does not fail yields the components found. -/
theorem read_eq_ok {limits : Limits} {text : List Char}
    (h : ∀ e, (ending limits text).cause ≠ .failure e) :
    (read limits (.ofText text)).1 = .ok (ending limits text).found.reverse := by
  rw [read_ofText, Stop.result]
  cases hcause : (ending limits text).cause with
  | failure e => exact absurd hcause (h e)
  | inputEnd => rfl
  | sectionEnd => rfl

/-- The words left when a section has been read are those left when the run ended. -/
theorem unreadWords_read (limits : Limits) (text : List Char) :
    (read limits (.ofText text)).2.unreadWords = (ending limits text).cursor.unreadWords := by
  rw [read_ofText, Stop.result]
  cases (ending limits text).cause <;> rfl

end Section

end NnetText
