import NnetText.Section

/-!
# The identity of a record

A declaration fixes the number, the name, the kind and the type of its component before
its body is looked at. This file says that nothing changes them afterwards
(`Component.identity_of_readAttributes`), and that of the four the number is inert: a
record that differs in its number alone is filled, adjusted and finished in the same way
(`Component.finish_withId`).
-/

namespace NnetText

/-- **The registry knows exactly its entries**: no type is listed twice. -/
theorem Kind.ofType?_eq_some_iff {typeName : String} {kind : Kind} :
    ofType? typeName = some kind ↔ (typeName, kind) ∈ registry := by
  constructor
  · intro h
    obtain ⟨before, behind, hregistry, -⟩ := List.lookup_eq_some_iff.mp h
    rw [hregistry]
    simp
  · intro h
    have hall : ∀ entry ∈ registry, ofType? entry.1 = some entry.2 := by decide
    exact hall _ h

namespace Component

/-! ### What a declaration fixes -/

/-- What a declaration fixes: number, name, kind and type. -/
def identity (c : Component) : Nat × String × Kind × String := (c.id, c.name, c.kind, c.typeTag)

theorem identity_of_declare {id : Nat} {name tag : String} {inputs : List String}
    {place : Position} {c : Component} (h : declare id name tag inputs place = .ok c) :
    c.id = id ∧ c.name = name ∧ c.typeTag = Tag.name tag := by
  unfold declare at h
  split at h
  · obtain rfl := Except.ok.inj h
    exact ⟨rfl, rfl, rfl⟩
  · cases h

theorem identity_setAttribute (c : Component) (key : AttributeKey) (value : Value) :
    (c.setAttribute key value).identity = c.identity := rfl

theorem identity_of_adjust {A : Arithmetic Single} {c d : Component} {r : Except ParseError Unit}
    (h : c.adjust A = (r, d)) : d.identity = c.identity := by
  obtain rfl : (c.adjust A).2 = d := congrArg Prod.snd h
  unfold adjust foldStatistics
  split
  · split <;> rfl
  · rfl

theorem identity_liftDim (c : Component) : c.liftDim.identity = c.identity := by
  unfold liftDim
  split <;> rfl

theorem identity_promoteKey (c : Component) (key : AttributeKey) :
    (c.promoteKey key).identity = c.identity := by
  unfold promoteKey
  split
  · rfl
  · dsimp only
    split
    · rfl
    · split <;> rfl

theorem identity_promote (c : Component) : c.promote.identity = c.identity := by
  have hfold : ∀ (keys : List AttributeKey) (c : Component),
      (keys.foldl promoteKey c).identity = c.identity := by
    intro keys
    induction keys with
    | nil => exact fun _ => rfl
    | cons key keys ih =>
      intro c
      rw [List.foldl_cons, ih, identity_promoteKey]
  exact hfold _ c

/-- **Finishing a record keeps its identity**, also when it fails. -/
theorem identity_finish (A : Arithmetic Single) (c : Component) :
    (c.finish A).2.identity = c.identity := by
  unfold finish
  split
  · rename_i hadjust
    exact identity_of_adjust hadjust
  · rename_i hadjust
    exact (identity_promote _).trans ((identity_liftDim _).trans (identity_of_adjust hadjust))

theorem finish_eq_ok_iff {A : Arithmetic Single} {c d : Component} :
    c.finish A = (.ok (), d) ↔ ∃ a, c.adjust A = (.ok (), a) ∧ a.liftDim.promote = d := by
  unfold finish
  split <;> simp [*]

/-- **What cannot be finished**: a normalization layer whose statistics do not fit together. It is
left as it was, since nothing is folded, moved or removed before all is known to be there. -/
theorem finish_eq_error_iff {A : Arithmetic Single} {c d : Component} {e : ParseError} :
    c.finish A = (.error e, d) ↔ c.kind = .batchNorm ∧
      ∃ fault, BatchNorm.statistics c.attributes = .error fault ∧
        e = .inconsistentAttributes c.name fault.reason ∧ d = c := by
  unfold finish adjust foldStatistics
  by_cases hkind : c.kind = .batchNorm
  · rw [if_pos hkind]
    cases hs : BatchNorm.statistics c.attributes with
    | error fault => simp [hkind, eq_comm]
    | ok s => simp
  · simp [hkind]

/-- A record that cannot be finished says so by name, and not by place. -/
theorem exists_reason_of_finish {A : Arithmetic Single} {c d : Component} {e : ParseError}
    (h : c.finish A = (.error e, d)) : ∃ reason, e = .inconsistentAttributes c.name reason := by
  obtain ⟨-, fault, -, he, -⟩ := finish_eq_error_iff.mp h
  exact ⟨fault.reason, he⟩

theorem eq_of_finish_error {A : Arithmetic Single} {c d : Component} {e : ParseError}
    (h : c.finish A = (.error e, d)) : d = c := by
  obtain ⟨-, _, -, -, hd⟩ := finish_eq_error_iff.mp h
  exact hd

theorem identity_collect (limits : Limits) (ends : List String) (record : Component)
    (c : Cursor) : (collect limits ends record c).2.1.identity = record.identity := by
  fun_induction collect limits ends record c with
  | case1 record c d h => rfl
  | case2 record c token d h hmem => rfl
  | case3 record c token d h hmem hrule ih => exact ih
  | case4 record c token d h hmem rule hrule e e' hread => rfl
  | case5 record c token d h hmem rule hrule value e' hread ih =>
    exact ih.trans (identity_setAttribute record rule.key value)

/-- **Reading the body of a declaration keeps its identity**, also when it fails. -/
theorem identity_of_readAttributes (limits : Limits) (ends : List String) (record : Component)
    (c : Cursor) : (readAttributes limits ends record c).2.1.identity = record.identity := by
  have h := identity_collect limits ends record c
  unfold readAttributes
  split
  · rename_i hcollect
    rwa [hcollect] at h
  · rename_i collected d hcollect
    rw [hcollect] at h
    have hfinish := (identity_finish limits.arithmetic collected).trans h
    split
    all_goals
      rename_i heq
      rwa [heq] at hfinish

/-! ### The number of a record is inert -/

/-- The record under another number. -/
def withId (n : Nat) (c : Component) : Component := { c with id := n }

@[simp] theorem kind_withId (n : Nat) (c : Component) : (c.withId n).kind = c.kind := rfl

@[simp] theorem attributes_withId (n : Nat) (c : Component) :
    (c.withId n).attributes = c.attributes := rfl

theorem adjust_withId (A : Arithmetic Single) (n : Nat) (c : Component) :
    (c.withId n).adjust A = ((c.adjust A).1, (c.adjust A).2.withId n) := by
  unfold adjust
  by_cases h : c.kind = .batchNorm
  · have h' : (c.withId n).kind = .batchNorm := h
    rw [if_pos h', if_pos h, foldStatistics, foldStatistics, attributes_withId]
    cases BatchNorm.statistics c.attributes <;> rfl
  · have h' : (c.withId n).kind ≠ .batchNorm := h
    rw [if_neg h', if_neg h]

theorem liftDim_withId (n : Nat) (c : Component) :
    (c.withId n).liftDim = c.liftDim.withId n := by
  unfold liftDim
  rw [attributes_withId]
  cases c.attributes.get? .dim <;> rfl

theorem promoteKey_withId (n : Nat) (c : Component) (key : AttributeKey) :
    (c.withId n).promoteKey key = (c.promoteKey key).withId n := by
  unfold promoteKey
  rw [attributes_withId]
  cases c.attributes.get? key with
  | none => rfl
  | some value =>
    dsimp only
    split
    · rfl
    · cases value.tensor? <;> rfl

theorem promote_withId (n : Nat) (c : Component) : (c.withId n).promote = c.promote.withId n := by
  have hfold : ∀ (keys : List AttributeKey) (c : Component),
      keys.foldl promoteKey (c.withId n) = (keys.foldl promoteKey c).withId n := by
    intro keys
    induction keys with
    | nil => exact fun _ => rfl
    | cons key keys ih =>
      intro c
      rw [List.foldl_cons, List.foldl_cons, promoteKey_withId, ih]
  exact hfold _ c

/-- **Finishing a record does not look at its number.** -/
theorem finish_withId (A : Arithmetic Single) (n : Nat) (c : Component) :
    (c.withId n).finish A = ((c.finish A).1, (c.finish A).2.withId n) := by
  unfold finish
  rw [adjust_withId]
  rcases c.adjust A with ⟨e | ⟨⟩, adjusted⟩
  · rfl
  · change (Except.ok (), (adjusted.withId n).liftDim.promote) = _
    rw [liftDim_withId, promote_withId]

end Component

end NnetText
