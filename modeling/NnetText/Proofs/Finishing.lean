import NnetText.Proofs.Bodies
import NnetText.Proofs.Identity

/-!
# What finishing does to a record

Finishing a record is three moves: the statistics of a normalization layer are folded, the
dimension is lifted out of the attributes, and the weights become constants one after the other.
Each move works on what the one before it has left. This file says what comes out, in terms of the
attributes before: which attributes become constants is `Component.moved`, and
`Component.Settles` is the whole result.

The moves are as simple as that only if the attributes have the forms their keys ask for. A scalar
under the key of a weight would be put back among the attributes, and `Component.Fits` is what
rules it out (`Component.Fits.movable`); with it every record that can be finished is settled in
this way (`Component.finish_cases`).
-/

namespace NnetText

/-! ### Names of constants -/

theorem AttributeKey.name_injective {k k' : AttributeKey} (h : k.name = k'.name) : k = k' := by
  cases k <;> cases k' <;> first | rfl | exact absurd h (by decide)

namespace Component

/-- A constant's name tells its key. -/
theorem constantName_injective {name : String} {k k' : AttributeKey}
    (h : constantName name k = constantName name k') : k = k' :=
  AttributeKey.name_injective ((String.append_right_inj _).mp h)

/-- A constant is not named like its component. -/
theorem constantName_ne (name : String) (key : AttributeKey) : constantName name key ≠ name := by
  intro h
  have hlength := congrArg String.length h
  simp only [constantName, String.length_append] at hlength
  have hbar : "_".length = 1 := by decide
  omega

/-! ### Weights -/

/-- **The tensor that an attribute becomes**, if it becomes one. -/
def promotion (c : Component) (key : AttributeKey) : Option Tensor :=
  (c.attributes.get? key).bind fun value =>
    if key = .bias ∧ value.isEmpty then none else value.tensor?

/-- The constants that attributes become, in the order of their keys. -/
def moved (c : Component) (keys : List AttributeKey) : List (String × Tensor) :=
  keys.filterMap fun key => (c.promotion key).map fun t => (constantName c.name key, t)

/-- The attribute under a key, if there is one, is no scalar. -/
def Movable (c : Component) (key : AttributeKey) : Prop :=
  ∀ value, c.attributes.get? key = some value → value.tensor?.isSome = true

theorem promotion_eq_some {c : Component} {key : AttributeKey} {t : Tensor}
    (h : c.promotion key = some t) :
    ∃ value, c.attributes.get? key = some value ∧ ¬(key = .bias ∧ value.isEmpty = true) ∧
      value.tensor? = some t := by
  obtain ⟨value, hvalue, ht⟩ := Option.bind_eq_some_iff.mp h
  split at ht
  · cases ht
  · rename_i hbias
    exact ⟨value, hvalue, hbias, ht⟩

theorem mem_moved {c : Component} {keys : List AttributeKey} {entry : String × Tensor} :
    entry ∈ c.moved keys ↔
      ∃ key ∈ keys, c.promotion key = some entry.2 ∧ entry.1 = constantName c.name key := by
  rw [moved, List.mem_filterMap]
  constructor
  · rintro ⟨key, hkey, hentry⟩
    obtain ⟨t, ht, rfl⟩ := Option.map_eq_some_iff.mp hentry
    exact ⟨key, hkey, ht, rfl⟩
  · rintro ⟨key, hkey, ht, hname⟩
    exact ⟨key, hkey, Option.map_eq_some_iff.mpr ⟨entry.2, ht, Prod.ext hname.symm rfl⟩⟩

theorem moved_cons (c : Component) (key : AttributeKey) (keys : List AttributeKey) :
    c.moved (key :: keys) = c.moved [key] ++ c.moved keys := by
  rw [moved, moved, moved, ← List.filterMap_append, List.singleton_append]

/-- The names of the constants belong to those keys that yield one. -/
theorem map_fst_moved (c : Component) (keys : List AttributeKey) :
    (c.moved keys).map Prod.fst =
      (keys.filter fun key => (c.promotion key).isSome).map (constantName c.name) := by
  induction keys with
  | nil => rfl
  | cons key keys ih =>
    rw [moved_cons, List.map_append, ih]
    cases ht : c.promotion key with
    | none => simp [moved, ht]
    | some t => simp [moved, ht]

/-- **One weight moved**: out of the attributes, and into the inputs and the constants unless it
is dropped. -/
theorem promoteKey_eq {c : Component} {key : AttributeKey} (h : c.Movable key) :
    c.promoteKey key =
      { c with
        attributes := c.attributes.erase key
        inputs := c.inputs ++ (c.moved [key]).map Prod.fst
        constants := (c.moved [key]).foldl (fun m e => m.insert e.1 e.2) c.constants } := by
  cases hvalue : c.attributes.get? key with
  | none =>
    have herase := OrderedMap.erase_of_not_mem (OrderedMap.get?_eq_none_iff.mp hvalue)
    have hmoved : c.moved [key] = [] := by simp [moved, promotion, hvalue]
    rw [promoteKey, hvalue, herase, hmoved]
    simp
  | some value =>
    by_cases hbias : key = .bias ∧ value.isEmpty = true
    · have hpromotion : c.promotion key = none := by
        rw [promotion, hvalue, Option.bind_some, if_pos hbias]
      have hmoved : c.moved [key] = [] := by simp [moved, hpromotion]
      simp only [promoteKey, hvalue, hmoved, if_pos hbias]
      simp
    · obtain ⟨t, ht⟩ := Option.isSome_iff_exists.mp (h value hvalue)
      have hmoved : c.moved [key] = [(constantName c.name key, t)] := by
        have hpromotion : c.promotion key = some t := by
          rw [promotion, hvalue, Option.bind_some, if_neg hbias, ht]
        simp [moved, hpromotion]
      simp only [promoteKey, hvalue, hmoved, if_neg hbias, ht]
      rfl

/-- **All weights moved**, in the order of their keys. -/
theorem foldl_promoteKey {c : Component} {keys : List AttributeKey} (hnodup : keys.Nodup)
    (h : ∀ key ∈ keys, c.Movable key) :
    keys.foldl promoteKey c =
      { c with
        attributes := keys.foldl OrderedMap.erase c.attributes
        inputs := c.inputs ++ (c.moved keys).map Prod.fst
        constants := (c.moved keys).foldl (fun m e => m.insert e.1 e.2) c.constants } := by
  induction keys generalizing c with
  | nil => simp [moved]
  | cons key keys ih =>
    obtain ⟨hkey, hnodup'⟩ := List.nodup_cons.mp hnodup
    -- a key that comes later is not touched by the move of an earlier one
    have hlater : ∀ k ∈ keys, (c.promoteKey key).attributes.get? k = c.attributes.get? k := by
      intro k hk
      have hne : k ≠ key := fun heq => hkey (heq ▸ hk)
      rw [promoteKey_eq (h key List.mem_cons_self), OrderedMap.get?_erase, if_neg hne]
    have hname : (c.promoteKey key).name = c.name := by
      rw [promoteKey_eq (h key List.mem_cons_self)]
    have hmoved : (c.promoteKey key).moved keys = c.moved keys := by
      refine List.filterMap_congr fun k hk => ?_
      rw [promotion, hlater k hk, hname, promotion]
    have hmovable : ∀ k ∈ keys, (c.promoteKey key).Movable k := by
      intro k hk value hvalue
      exact h k (List.mem_cons_of_mem _ hk) value ((hlater k hk).symm.trans hvalue)
    rw [List.foldl_cons, ih hnodup' hmovable, hmoved, promoteKey_eq (h key List.mem_cons_self),
      moved_cons c key keys]
    simp only [List.foldl_cons, List.map_append, List.foldl_append, List.append_assoc]

/-! ### The dimension -/

theorem liftDim_eq (c : Component) (h : c.dim = none) :
    c.liftDim =
      { c with
        dim := (c.attributes.get? .dim).bind Value.int?
        attributes := c.attributes.erase .dim } := by
  cases hvalue : c.attributes.get? .dim with
  | none =>
    have herase := OrderedMap.erase_of_not_mem (OrderedMap.get?_eq_none_iff.mp hvalue)
    rw [liftDim, hvalue, herase, Option.bind_none, ← h]
  | some value =>
    rw [liftDim, hvalue]
    rfl

end Component

/-! ### Statistics -/

/-- **Statistics that can be folded** are all there, and there is one mean to each variance. -/
theorem BatchNorm.statistics_eq_ok {attributes : OrderedMap AttributeKey Value}
    {s : Statistics Single} (h : statistics attributes = .ok s) :
    (∃ x, (attributes.get? .epsilon).bind Value.float? = some x) ∧
      (∃ x, (attributes.get? .targetRms).bind Value.float? = some x) ∧
      (attributes.get? .statsMean).bind Value.floats? = some s.mean ∧
      (attributes.get? .statsVar).bind Value.floats? = some s.var ∧
      s.mean.length = s.var.length := by
  unfold statistics number vector at h
  cases hepsilon : (attributes.get? .epsilon).bind Value.float? with
  | none => simp [hepsilon, bind, Except.bind] at h
  | some epsilon =>
    cases hrms : (attributes.get? .targetRms).bind Value.float? with
    | none => simp [hepsilon, hrms, bind, Except.bind] at h
    | some rms =>
      cases hmean : (attributes.get? .statsMean).bind Value.floats? with
      | none => simp [hepsilon, hrms, hmean, bind, Except.bind] at h
      | some mean =>
        cases hvar : (attributes.get? .statsVar).bind Value.floats? with
        | none => simp [hepsilon, hrms, hmean, hvar, bind, Except.bind] at h
        | some var =>
          simp only [hepsilon, hrms, hmean, hvar, bind, Except.bind] at h
          split at h
          · rename_i hlength
            obtain rfl := Except.ok.inj h
            exact ⟨⟨_, rfl⟩, ⟨_, rfl⟩, rfl, rfl, hlength⟩
          · cases h

/-- There is a scale to each channel. -/
theorem BatchNorm.Statistics.length_scales {α : Type} (A : Arithmetic α) (s : Statistics α) :
    (s.scales A).length = s.var.length :=
  List.length_map _

/-- There is a shift to each channel. -/
theorem BatchNorm.Statistics.length_shifts {α : Type} (A : Arithmetic α) {s : Statistics α}
    (h : s.mean.length = s.var.length) : (s.shifts A).length = s.var.length := by
  rw [shifts, List.length_zipWith, length_scales, h, Nat.min_self]

namespace Component

/-- **The adjustment of a record**: none, or scales and shifts in the places of the statistics. -/
theorem adjust_cases {A : Arithmetic Single} {c d : Component}
    (h : c.adjust A = (.ok (), d)) :
    (c.kind ≠ .batchNorm ∧ d = c) ∨
      (c.kind = .batchNorm ∧ ∃ s, BatchNorm.statistics c.attributes = .ok s ∧
        d = (c.setAttribute .statsVar (.floats (s.shifts A))).setAttribute .statsMean
          (.floats (s.scales A))) := by
  unfold adjust at h
  split at h
  · rename_i hkind
    refine Or.inr ⟨hkind, ?_⟩
    unfold foldStatistics at h
    split at h
    · cases h
    · rename_i s hs
      exact ⟨s, hs, (Prod.mk.inj h).2.symm⟩
  · rename_i hkind
    exact Or.inl ⟨hkind, (Prod.mk.inj h).2.symm⟩

/-! ### Forms of attributes -/

/-- The values that become weights are vectors of numbers and matrices. -/
theorem literal_of_promoted {kind : Kind} {rule : Rule} (h : rule ∈ kind.table)
    (hkey : rule.key ∈ AttributeKey.promoted) :
    rule.literal = .floats ∨ rule.literal = .matrix := by
  cases kind <;> simp only [Kind.table, List.mem_cons, List.not_mem_nil, or_false] at h
  all_goals rcases h with rfl | rfl | rfl | rfl | rfl <;> simp_all [AttributeKey.promoted]

section Fits

variable {A : Arithmetic Single} {limits : Limits} {c d : Component} {key : AttributeKey}

/-- **A weight that fits the table is no scalar.** -/
theorem Fits.movable (h : c.Fits limits) (hkey : key ∈ AttributeKey.promoted) :
    c.Movable key := by
  intro value hvalue
  obtain ⟨rule, hrule, rfl, hyields⟩ := h key value hvalue
  rcases literal_of_promoted hrule hkey with hliteral | hliteral
  · rw [hliteral] at hyields
    cases value <;> first | rfl | cases hyields
  · rw [hliteral] at hyields
    cases value <;> first | rfl | cases hyields

/-- The variances of a record that fits its table are not too many. -/
theorem Fits.length_var (h : c.Fits limits) {s : BatchNorm.Statistics Single}
    (hs : (c.attributes.get? .statsVar).bind Value.floats? = some s.var) :
    s.var.length ≤ limits.tensorElements := by
  obtain ⟨value, hvalue, hfloats⟩ := Option.bind_eq_some_iff.mp hs
  obtain ⟨rule, -, -, hyields⟩ := h .statsVar value hvalue
  cases value with
  | floats xs =>
    obtain rfl := Option.some.inj hfloats
    cases hliteral : rule.literal <;> rw [hliteral] at hyields
    case floats => exact hyields
    all_goals cases hyields
  | bool | int | float | ints | matrix => cases hfloats

/-- **An adjusted record still fits its table.** -/
theorem Fits.adjust (h : c.Fits limits) (hadjust : c.adjust A = (.ok (), d)) :
    d.Fits limits := by
  rcases adjust_cases hadjust with ⟨-, rfl⟩ | ⟨hkind, s, hs, rfl⟩
  · exact h
  · obtain ⟨-, -, -, hvar, hlength⟩ := BatchNorm.statistics_eq_ok hs
    have hle := h.length_var hvar
    have hshifts : Literal.floats.Yields limits (.floats (s.shifts A)) := by
      change (s.shifts A).length ≤ _
      rwa [BatchNorm.Statistics.length_shifts A hlength]
    have hscales : Literal.floats.Yields limits (.floats (s.scales A)) := by
      change (s.scales A).length ≤ _
      rwa [BatchNorm.Statistics.length_scales]
    have hruleVar : ⟨"<StatsVar>", .floats, .statsVar⟩ ∈ c.kind.table := by
      rw [hkind]
      decide
    have hruleMean : ⟨"<StatsMean>", .floats, .statsMean⟩ ∈ c.kind.table := by
      rw [hkind]
      decide
    exact (h.setAttribute hruleVar hshifts).setAttribute hruleMean hscales

/-- **A finished record**, in terms of the adjusted one: the dimension is in a field of its own,
and the weights are constants and inputs. -/
structure Settles (a d : Component) : Prop where
  name : d.name = a.name
  dim : d.dim = (a.attributes.get? .dim).bind Value.int?
  attributes :
    d.attributes = (.dim :: AttributeKey.promoted).foldl OrderedMap.erase a.attributes
  inputs : d.inputs = a.inputs ++ d.constants.keys
  constants : d.constants.entries = a.moved AttributeKey.promoted

/-- **Finishing adjusts the record and settles it**, if its attributes fit the table. -/
theorem finish_cases (hfits : c.Fits limits) (hdim : c.dim = none)
    (hconstants : c.constants = .empty) (h : c.finish A = (.ok (), d)) :
    ∃ a, c.adjust A = (.ok (), a) ∧ a.Fits limits ∧ a.inputs = c.inputs ∧ a.Settles d := by
  obtain ⟨a, hadjust, rfl⟩ := finish_eq_ok_iff.mp h
  have hfits' := hfits.adjust hadjust
  -- the adjustment touches nothing but attributes
  obtain ⟨hinputs, hdim', hconstants'⟩ :
      a.inputs = c.inputs ∧ a.dim = none ∧ a.constants = .empty := by
    rcases adjust_cases hadjust with ⟨-, rfl⟩ | ⟨-, s, -, rfl⟩
    · exact ⟨rfl, hdim, hconstants⟩
    · exact ⟨rfl, hdim, hconstants⟩
  -- lifting the dimension moves no weight
  have hget : ∀ key ∈ AttributeKey.promoted,
      a.liftDim.attributes.get? key = a.attributes.get? key := by
    intro key hkey
    have hne : key ≠ .dim := fun heq => absurd (heq ▸ hkey) (by decide)
    rw [liftDim_eq a hdim', OrderedMap.get?_erase, if_neg hne]
  have hname : a.liftDim.name = a.name := by rw [liftDim_eq a hdim']
  have hmoved : a.liftDim.moved AttributeKey.promoted = a.moved AttributeKey.promoted := by
    refine List.filterMap_congr fun key hkey => ?_
    rw [promotion, hget key hkey, hname, promotion]
  have hmovable : ∀ key ∈ AttributeKey.promoted, a.liftDim.Movable key := by
    intro key hkey value hvalue
    exact hfits'.movable hkey value ((hget key hkey).symm.trans hvalue)
  have hnodup : ((a.moved AttributeKey.promoted).map Prod.fst).Nodup := by
    rw [map_fst_moved]
    refine List.Nodup.map (fun _ _ => constantName_injective) (List.Nodup.filter _ ?_)
    decide
  have hentries : ((a.moved AttributeKey.promoted).foldl (fun m e => m.insert e.1 e.2)
      a.constants).entries = a.moved AttributeKey.promoted := by
    rw [hconstants', OrderedMap.entries_foldl_insert hnodup fun _ _ => List.not_mem_nil]
    rfl
  refine ⟨a, hadjust, hfits', hinputs, ?_⟩
  rw [promote, foldl_promoteKey (by decide) hmovable, hmoved, liftDim_eq a hdim']
  refine ⟨rfl, rfl, rfl, ?_, hentries⟩
  rw [OrderedMap.keys, hentries]

end Fits

end Component

end NnetText
