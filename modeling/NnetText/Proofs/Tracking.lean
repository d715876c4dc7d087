import NnetText.Proofs.Correspondence

/-!
# Two runs that go the same way

If single declarations are read alike (`NnetText.Proofs.Correspondence`), so are whole
sections. The two runs need not start with the same components: the right one may have
some already, and then it counts on from them. The numbers of its components are shifted,
and it may be the first to have too many.

`Comparison.Tracks` relates two stages of such runs. A step on the left is a step on the
right (`Comparison.Tracks.exists_step`), a stop on the left is a stop on the right
(`Comparison.Tracks.ends_of_stop`), and so the right run follows the left one to its end
(`Comparison.Tracks.run`). What that means for the two readings is `Comparison.Ends.reads`.
-/

namespace NnetText

/-! ### How a run ends -/

/-- The component with its number counted on by `n`. -/
def Component.shiftId (n : Nat) (c : Component) : Component := c.withId (c.id + n)

@[simp] theorem Component.shiftId_zero : Component.shiftId 0 = fun c => c := rfl

namespace Section

/-- The same cause at another place. -/
def Cause.mapPlace (f : Position → Position) : Cause → Cause
  | inputEnd => inputEnd
  | sectionEnd => sectionEnd
  | failure e => failure (e.mapPlace f)

/-- Causes that are the same but for their places: none fails, or both do. -/
theorem Cause.cases_of_mapPlace {f g : Position → Position} {p q : Cause}
    (h : p.mapPlace f = q.mapPlace g) :
    (p = q ∧ ∀ e, p ≠ failure e) ∨
      ∃ e e', p = failure e ∧ q = failure e' ∧ e.mapPlace f = e'.mapPlace g := by
  cases p <;> cases q <;> simp_all [mapPlace]

/-- Whether a run is over because the input is. -/
def Cause.isTruncation : Cause → Bool
  | inputEnd => true
  | sectionEnd => false
  | failure e => e.isTruncation

/-- **With `n` components in front of its own, the run would have had too many.** One that
fails has begun another declaration, for which there has to be room as well. -/
def Stop.Overflows (limits : Limits) (n : Nat) (s : Stop) : Prop :=
  match s.cause with
  | .failure _ => limits.components ≤ n + s.found.length
  | _ => limits.components < n + s.found.length

theorem Stop.overflows_of_failure {limits : Limits} {n : Nat} {s : Stop} {e : ParseError}
    (h : s.cause = .failure e) :
    s.Overflows limits n ↔ limits.components ≤ n + s.found.length := by
  rw [Overflows, h]

theorem Stop.overflows_of_ne_failure {limits : Limits} {n : Nat} {s : Stop}
    (h : ∀ e, s.cause ≠ .failure e) :
    s.Overflows limits n ↔ limits.components < n + s.found.length := by
  rw [Overflows]
  split
  · rename_i e he
    exact absurd he (h e)
  · rfl

namespace Stage

variable {limits : Limits} {s : Stage}

/-- Behind an opener for which there is no room, a run has too many components. -/
theorem overflows_run {n : Nat} (hopened : s.opened = true)
    (hfull : limits.components ≤ n + s.found.length) : (s.run limits).Overflows limits n := by
  cases hstep : s.step limits with
  | inl t =>
    rcases step_eq_inl hstep with ⟨-, -, component, next, d, -, rfl⟩ | ⟨hclosed, -⟩
    · have hlength := (found_suffix_run limits ⟨component :: s.found, next, d⟩).length_le
      rw [List.length_cons] at hlength
      rw [run_of_step hstep, Stop.Overflows]
      split <;> omega
    · cases hopened.symm.trans hclosed
  | inr stop =>
    rw [run_of_stop hstep]
    rcases step_eq_inr hstep with ⟨-, -, rfl⟩ | ⟨-, -, e, d, -, rfl⟩ | ⟨hclosed, -⟩ |
      ⟨hclosed, -⟩
    · exact hfull
    · exact hfull
    · cases hopened.symm.trans hclosed
    · cases hopened.symm.trans hclosed

/-- A run from the beginning that has too many components says so. -/
theorem cause_of_overflows (hroom : s.found.length ≤ limits.components)
    (h : (s.run limits).Overflows limits 0) :
    (s.run limits).cause = .failure (.tooManyComponents limits.components) := by
  fun_induction run limits s with
  | case1 s t hstep ih =>
    refine ih ?_ h
    rcases step_eq_inl hstep with ⟨-, hlt, component, next, d, -, rfl⟩ |
      ⟨-, token, d, -, -, rfl⟩
    · exact hlt
    · exact hroom
  | case2 s stop hstop =>
    rcases step_eq_inr hstop with ⟨-, -, rfl⟩ | ⟨-, hlt, e, d, -, rfl⟩ | ⟨-, d, -, rfl⟩ |
      ⟨-, d, -, rfl⟩
    · rfl
    all_goals
      simp only [Stop.Overflows] at h
      omega

end Stage

end Section

/-! ### Runs in step -/

namespace Comparison

open Section

/-- **Two runs go the same way.** The right one has components from before; what it finds
beyond them is what the left one finds, with the numbers counted on. -/
structure Tracks (K : Comparison) (limits : Limits) (earlier : List Component)
    (s t : Stage) : Prop where
  found : t.found = s.found.map (Component.shiftId earlier.length) ++ earlier
  opened : t.opened = s.opened
  cursor : K.rel s.cursor t.cursor
  room : t.found.length ≤ limits.components

/-- **Two runs end the same way**, unless there are too many components on the right or
the left text is cut short. -/
inductive Ends (K : Comparison) (limits : Limits) (earlier : List Component) :
    Stop → Stop → Prop
  | same {p q : Stop}
      (hfound : q.found = p.found.map (Component.shiftId earlier.length) ++ earlier)
      (hcause : p.cause.mapPlace K.left = q.cause.mapPlace K.right)
      (hroom : ¬ p.Overflows limits earlier.length) : Ends K limits earlier p q
  | full {p q : Stop} (hcause : q.cause = .failure (.tooManyComponents limits.components))
      (hfull : p.Overflows limits earlier.length) : Ends K limits earlier p q
  | cut {p q : Stop} (h : K.cut) (hcause : p.cause.isTruncation = true) : Ends K limits earlier p q

section Runs

variable {K : Comparison} {limits : Limits} {earlier : List Component} {s t s' : Stage}

namespace Tracks

theorem length_found (h : K.Tracks limits earlier s t) :
    t.found.length = earlier.length + s.found.length := by
  rw [h.found, List.length_append, List.length_map, Nat.add_comm]

/-- Without room on the right, the right run is over. -/
theorem ends_of_full (h : K.Tracks limits earlier s t) (hopened : s.opened = true)
    (hfull : limits.components ≤ t.found.length) :
    K.Ends limits earlier (s.run limits) (t.run limits) := by
  rw [Stage.run_of_stop (Stage.step_of_full (h.opened.trans hopened) hfull)]
  rw [h.length_found] at hfull
  exact .full rfl (Stage.overflows_run hopened hfull)

/-- **A step on the left is a step on the right**, if there is room for it. -/
theorem exists_step (hK : K.Lawful) (h : K.Tracks limits earlier s t)
    (hs : s.step limits = .inl s')
    (hroom : s.opened = true → t.found.length < limits.components) :
    ∃ t', t.step limits = .inl t' ∧ K.Tracks limits earlier s' t' := by
  rcases Stage.step_eq_inl hs with ⟨hopened, -, component, next, c', hc, rfl⟩ |
    ⟨hopened, token, c', hc, hne, rfl⟩
  · have hdecl := hK.declaration limits s.found.length t.found.length h.cursor
    have hlt := hroom hopened
    obtain ⟨-, -, -, -, hid, -⟩ := exists_unreadWords_of_declaration hc
    rw [hc] at hdecl
    generalize hd : declaration limits t.found.length t.cursor = r at hdecl
    cases hdecl with
    | @ok _ y _ d' heq hrel =>
      subst heq
      refine ⟨_, Stage.step_of_declaration (h.opened.trans hopened) hlt hd, ?_, rfl, hrel, hlt⟩
      -- the number on the right is the number on the left, counted on
      have hshift : component.withId t.found.length = component.shiftId earlier.length := by
        rw [Component.shiftId, hid, h.length_found, Nat.add_comm]
      rw [hshift, h.found, List.map_cons, List.cons_append]
  · obtain ⟨d', hd, hrel⟩ := hK.exists_pull h.cursor hc
    exact ⟨_, Stage.step_of_token (h.opened.trans hopened) hd hne, h.found, rfl, hrel, h.room⟩

/-- **Where the left run stops, so does the right one.** -/
theorem ends_of_stop (hK : K.Lawful) (h : K.Tracks limits earlier s t) {p : Stop}
    (hs : s.step limits = .inr p)
    (hroom : s.opened = true → t.found.length < limits.components) :
    K.Ends limits earlier p (t.run limits) := by
  have hlength := h.length_found
  have hle := h.room
  rcases Stage.step_eq_inr hs with ⟨hopened, hfull, rfl⟩ | ⟨hopened, -, e, c', hc, rfl⟩ |
    ⟨hopened, c', hc, rfl⟩ | ⟨hopened, c', hc, rfl⟩
  · have hlt := hroom hopened
    omega
  · have hdecl := hK.declaration limits s.found.length t.found.length h.cursor
    have hlt := hroom hopened
    rw [hc] at hdecl
    generalize hd : declaration limits t.found.length t.cursor = r at hdecl
    cases hdecl with
    | @error _ e' _ d' he hended =>
      rw [Stage.run_of_stop (Stage.step_of_error (h.opened.trans hopened) hlt hd)]
      refine .same h.found (congrArg Cause.failure he) ?_
      simp only [Stop.Overflows]
      omega
    | cut hcut he => exact .cut hcut he
  · rcases hK.exists_pull_none h.cursor hc with ⟨d', hd, -⟩ | hcut
    · rw [Stage.run_of_stop (Stage.step_of_inputEnd (h.opened.trans hopened) hd)]
      refine .same h.found rfl ?_
      simp only [Stop.Overflows]
      omega
    · exact .cut hcut rfl
  · obtain ⟨d', hd, -⟩ := hK.exists_pull h.cursor hc
    rw [Stage.run_of_stop (Stage.step_of_sectionEnd (h.opened.trans hopened) hd)]
    refine .same h.found rfl ?_
    simp only [Stop.Overflows]
    omega

/-- **The right run follows the left one to the end.** -/
theorem run (hK : K.Lawful) (h : K.Tracks limits earlier s t) :
    K.Ends limits earlier (s.run limits) (t.run limits) := by
  -- along the left run, by what it has left to read; the right run is over before the left
  -- one only if there is no room on the right
  induction hn : s.cursor.remaining using Nat.strongRecOn generalizing s t with
  | _ n ih =>
    by_cases hfull : s.opened = true ∧ limits.components ≤ t.found.length
    · exact h.ends_of_full hfull.1 hfull.2
    · have hroom : s.opened = true → t.found.length < limits.components := fun hopened =>
        Nat.lt_of_not_le fun hle => hfull ⟨hopened, hle⟩
      cases hs : s.step limits with
      | inl s' =>
        obtain ⟨t', ht, htracks⟩ := h.exists_step hK hs hroom
        rw [Stage.run_of_step hs, Stage.run_of_step ht]
        exact ih _ (hn ▸ Stage.remaining_lt_of_step hs) htracks rfl
      | inr p =>
        rw [Stage.run_of_stop hs]
        exact h.ends_of_stop hK hs hroom

/-- **Where the left run gets, so does the right one**, if it has no components from
before. -/
theorem exists_reaches (hK : K.Lawful) (h : K.Tracks limits [] s t)
    (hs : Stage.Reaches limits s s') :
    ∃ t', Stage.Reaches limits t t' ∧ K.Tracks limits [] s' t' := by
  induction hs with
  | refl => exact ⟨t, .refl, h⟩
  | @tail r _ _ hstep ih =>
    obtain ⟨u, hreach, hu⟩ := ih
    have hroom : r.opened = true → u.found.length < limits.components := by
      intro hopened
      rcases Stage.step_eq_inl hstep with ⟨-, hlt, -⟩ | ⟨hclosed, -⟩
      · rw [hu.length_found]
        simpa using hlt
      · cases hopened.symm.trans hclosed
    obtain ⟨t', ht, htracks⟩ := hu.exists_step hK hstep hroom
    exact ⟨t', hreach.tail ht, htracks⟩

end Tracks

/-- **Runs that end the same way yield the same reading**: the same components, or the
same error at corresponding places, unless the left text is cut short. -/
theorem Ends.reads {a b : List Char}
    (h : K.Ends limits [] (ending limits a) (ending limits b)) :
    (∃ components, (read limits (.ofText a)).1 = .ok components ∧
      (read limits (.ofText b)).1 = .ok components) ∨
    (∃ e e', (read limits (.ofText a)).1 = .error e ∧ (read limits (.ofText b)).1 = .error e' ∧
      e.mapPlace K.left = e'.mapPlace K.right) ∨
    K.cut ∧ (ending limits a).cause.isTruncation = true := by
  cases h with
  | cut hcut hcause => exact Or.inr (Or.inr ⟨hcut, hcause⟩)
  | full hcause hfull =>
    -- without components from before, too many on the right are too many on the left
    have hcause' := Stage.cause_of_overflows (Nat.zero_le _) hfull
    exact Or.inr (Or.inl ⟨_, _, ending_of_read_error.mpr hcause',
      ending_of_read_error.mpr hcause, rfl⟩)
  | same hfound hcause hroom =>
    have hfound' : (ending limits b).found = (ending limits a).found := by simpa using hfound
    rcases Cause.cases_of_mapPlace hcause with ⟨heq, hne⟩ | ⟨e, e', ha, hb, he⟩
    · refine Or.inl ⟨_, read_eq_ok hne, ?_⟩
      rw [read_eq_ok (heq ▸ hne), hfound']
    · exact Or.inr (Or.inl ⟨e, e', ending_of_read_error.mpr ha, ending_of_read_error.mpr hb, he⟩)

end Runs

end Comparison

end NnetText
