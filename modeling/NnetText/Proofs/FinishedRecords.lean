import NnetText.Proofs.Finishing

/-!
# Finished records

When the body of a declaration has been read, the record is in a form that later stages can rely
on: its identity is that of the declaration, its weights are constants whose shapes tell the
number of their elements, each of them is among the inputs, and what is left of the attributes
depends on the kind alone. `Component.Finished` says so, and `Component.finished_of_readAttributes`
that every body that can be read leads to such a record, from whatever cursor, with whatever ends
and whatever inputs it starts.

All of this hangs on one invariant of the body's loop, that every attribute fits the table of the
kind (`Component.Fits`). The rest is read off the table, kind by kind.
-/

namespace NnetText

/-! ### Shapes -/

/-- A tensor has as many elements as its value. -/
theorem Value.size_of_tensor? {value : Value} {t : Tensor} (h : value.tensor? = some t) :
    value.size = t.data.length := by
  cases value with
  | bool | int | float => cases h
  | ints ns =>
    obtain rfl := Option.some.inj h
    exact (List.length_map _).symm
  | floats xs =>
    obtain rfl := Option.some.inj h
    rfl
  | matrix m =>
    obtain rfl := Option.some.inj h
    rfl

/-- **The shape of a weight**, by the form it was written in. -/
theorem Literal.Yields.shape {limits : Limits} {l : Literal} {value : Value} {t : Tensor}
    (h : l.Yields limits value) (ht : value.tensor? = some t) :
    t.data.length ≤ limits.tensorElements ∧
      (t.shape = [t.data.length] ∧ (l = .ints ∨ l = .floats) ∨
        ∃ rows cols, t.shape = [rows, cols] ∧ t.data.length = rows * cols ∧ l = .matrix) := by
  have hsize := Value.size_of_tensor? ht
  cases value with
  | bool | int | float => cases ht
  | ints ns =>
    obtain rfl := Option.some.inj ht
    cases l with
    | ints => exact ⟨hsize ▸ h, Or.inl ⟨rfl, Or.inl rfl⟩⟩
    | bool | int | float | floats | matrix => cases h
  | floats xs =>
    obtain rfl := Option.some.inj ht
    cases l with
    | floats => exact ⟨h, Or.inl ⟨rfl, Or.inr rfl⟩⟩
    | bool | int | float | ints | matrix => cases h
  | matrix m =>
    obtain rfl := Option.some.inj ht
    cases l with
    | matrix => exact ⟨h, Or.inr ⟨m.rows, m.cols, rfl, m.length_data, rfl⟩⟩
    | bool | int | float | ints | floats => cases h

/-- The number of elements that a shape tells. -/
def Tensor.volume (t : Tensor) : Nat := t.shape.foldr (· * ·) 1

namespace Component

/-! ### What a finished record looks like -/

/-- The constants are a matrix of weights and a bias that is not empty, or one of them, or none. -/
def Weighted (c : Component) : Prop :=
  ∀ constant ∈ c.constants.entries,
    constant.1 = constantName c.name .params ∧ constant.2.shape.length = 2 ∨
      constant.1 = constantName c.name .bias ∧ constant.2.shape.length = 1 ∧
        constant.2.data ≠ []

/-- **What is left of a record of some kind** when it is finished. -/
def Shaped (c : Component) : Kind → Prop
  | .generic =>
    c.constants.entries = [] ∧
      ∀ key value, c.attributes.get? key = some value →
        (key = .inputDim ∨ key = .outputDim) ∧ ∃ n, value = .int n
  | .affine => c.attributes.entries = [] ∧ c.dim = none ∧ c.Weighted
  | .batchNorm =>
    (∀ key, key ∈ c.attributes.keys ↔ key = .epsilon ∨ key = .targetRms) ∧
      (∀ key value, c.attributes.get? key = some value → ∃ x, value = .float x) ∧
      ∃ mean var, mean.length = var.length ∧
        c.constants.entries = [(constantName c.name .statsMean, .vector mean),
          (constantName c.name .statsVar, .vector var)]
  | .tdnn =>
    (∀ key value, c.attributes.get? key = some value →
        key = .timeOffsets ∧ ∃ ns, value = .ints ns) ∧ c.dim = none ∧ c.Weighted
  | _ => False

/-- **A finished record**, as a declaration and the values of its body determine it. -/
structure Finished (limits : Limits) (record : Component) (values : List (Rule × Value))
    (c : Component) : Prop where
  identity : c.identity = record.identity
  inputs : c.inputs = record.inputs ++ c.constants.keys
  constants : ∃ keys : List AttributeKey, keys.Sublist AttributeKey.promoted ∧
    c.constants.keys = keys.map (constantName record.name)
  name : record.name ∉ c.constants.keys
  attributes : ∀ key ∈ .dim :: AttributeKey.promoted, key ∉ c.attributes.keys
  sizes : ∀ t ∈ c.constants.values,
    t.volume = t.data.length ∧ t.data.length ≤ limits.tensorElements
  dim : c.dim.isSome = true ↔ ∃ r ∈ values, r.1.tag = "<Dim>"
  shaped : c.Shaped record.kind

/-! ### Reading it off the tables -/

/-- In all tables the dimension stands behind one tag. -/
theorem tag_of_dim {kind : Kind} {rule : Rule} (h : rule ∈ kind.table) :
    rule.key = .dim ↔ rule.tag = "<Dim>" := by
  cases kind <;> simp only [Kind.table, List.mem_cons, List.not_mem_nil, or_false] at h
  all_goals rcases h with rfl | rfl | rfl | rfl | rfl <;> decide

/-- A record that is declared is of a kind that is read. -/
theorem kind_of_declare {id : Nat} {name tag : String} {inputs : List String} {place : Position}
    {record : Component} (h : declare id name tag inputs place = .ok record) :
    (record.kind = .generic ∨ record.kind = .affine ∨ record.kind = .batchNorm ∨
        record.kind = .tdnn) ∧
      record.dim = none ∧ record.attributes = .empty ∧ record.constants = .empty := by
  unfold declare at h
  split at h
  · rename_i kind hkind
    obtain rfl := Except.ok.inj h
    refine ⟨?_, rfl, rfl, rfl⟩
    have hread : ∀ entry ∈ Kind.registry, entry.2 = .generic ∨ entry.2 = .affine ∨
        entry.2 = .batchNorm ∨ entry.2 = .tdnn := by decide
    exact hread _ (Kind.ofType?_eq_some_iff.mp hkind)
  · cases h

/-- A record starts with the inputs it is declared with. -/
theorem inputs_of_declare {id : Nat} {name tag : String} {inputs : List String} {place : Position}
    {record : Component} (h : declare id name tag inputs place = .ok record) :
    record.inputs = inputs := by
  unfold declare at h
  split at h
  · obtain rfl := Except.ok.inj h
    rfl
  · cases h

section Tables

variable {A : Arithmetic Single} {limits : Limits} {a c : Component} {key : AttributeKey}
  {value : Value} {t : Tensor}

/-- **A weight comes from a rule**, and its shape from the form the rule asks for. -/
theorem Fits.shape_of_promotion (h : a.Fits limits) (ht : a.promotion key = some t) :
    (key = .bias → t.data ≠ []) ∧ t.data.length ≤ limits.tensorElements ∧
      ∃ rule ∈ a.kind.table, rule.key = key ∧
        (t.shape = [t.data.length] ∧ (rule.literal = .ints ∨ rule.literal = .floats) ∨
          ∃ rows cols, t.shape = [rows, cols] ∧ t.data.length = rows * cols ∧
            rule.literal = .matrix) := by
  obtain ⟨value, hvalue, hbias, htensor⟩ := promotion_eq_some ht
  obtain ⟨rule, hrule, hkey, hyields⟩ := h key value hvalue
  obtain ⟨hlength, hshape⟩ := hyields.shape htensor
  refine ⟨?_, hlength, rule, hrule, hkey, hshape⟩
  rintro hkey hdata
  refine hbias ⟨hkey, ?_⟩
  rw [Value.isEmpty, Value.size_of_tensor? htensor, hdata]
  rfl

/-- The attributes that are left are those that were there under other keys. -/
theorem Settles.get?_of_left (h : a.Settles c) (hvalue : c.attributes.get? key = some value) :
    key ∉ .dim :: AttributeKey.promoted ∧ a.attributes.get? key = some value := by
  rw [h.attributes, OrderedMap.get?_foldl_erase] at hvalue
  split at hvalue
  · cases hvalue
  · rename_i hkey
    exact ⟨hkey, hvalue⟩

theorem Settles.get?_left (h : a.Settles c) (hkey : key ∉ .dim :: AttributeKey.promoted) :
    c.attributes.get? key = a.attributes.get? key := by
  rw [h.attributes, OrderedMap.get?_foldl_erase, if_neg hkey]

theorem Settles.shaped_generic (h : a.Settles c) (hfits : a.Fits limits)
    (hkind : a.kind = .generic) : c.Shaped .generic := by
  refine ⟨?_, ?_⟩
  · rw [h.constants, List.eq_nil_iff_forall_not_mem]
    intro constant hmem
    obtain ⟨key, hkey, ht, -⟩ := mem_moved.mp hmem
    obtain ⟨-, -, rule, hrule, rfl, -⟩ := hfits.shape_of_promotion ht
    simp only [hkind, Kind.table, List.mem_cons, List.not_mem_nil, or_false] at hrule
    rcases hrule with rfl | rfl | rfl <;> exact absurd hkey (by decide)
  · intro key value hvalue
    obtain ⟨hkey, hvalue⟩ := h.get?_of_left hvalue
    obtain ⟨rule, hrule, rfl, hyields⟩ := hfits key value hvalue
    simp only [hkind, Kind.table, List.mem_cons, List.not_mem_nil, or_false] at hrule
    have hint : ∀ value, Literal.int.Yields limits value → ∃ n, value = .int n := by
      intro value h
      cases value <;> first | exact ⟨_, rfl⟩ | cases h
    rcases hrule with rfl | rfl | rfl
    · exact absurd List.mem_cons_self hkey
    · exact ⟨Or.inl rfl, hint value hyields⟩
    · exact ⟨Or.inr rfl, hint value hyields⟩

/-- The weights of a layer with a matrix: its matrix has two axes and its bias has one. -/
theorem Settles.weighted (h : a.Settles c) (hfits : a.Fits limits)
    (hkind : a.kind = .affine ∨ a.kind = .tdnn) : c.Weighted := by
  intro constant hmem
  rw [h.constants] at hmem
  obtain ⟨key, hkey, ht, hconstant⟩ := mem_moved.mp hmem
  obtain ⟨hbias, -, rule, hrule, rfl, hshape⟩ := hfits.shape_of_promotion ht
  have hform : rule.key = .params ∧ rule.literal = .matrix ∨
      rule.key = .bias ∧ rule.literal = .floats := by
    rcases hkind with hkind | hkind <;>
      simp only [hkind, Kind.table, List.mem_cons, List.not_mem_nil, or_false] at hrule <;>
      rcases hrule with rfl | rfl | rfl <;>
      first | exact Or.inl ⟨rfl, rfl⟩ | exact Or.inr ⟨rfl, rfl⟩ | exact absurd hkey (by decide)
  rw [hconstant, h.name]
  rcases hform with ⟨hk, hliteral⟩ | ⟨hk, hliteral⟩
  · rcases hshape with ⟨-, hl | hl⟩ | ⟨rows, cols, hshape, -, -⟩
    · cases hliteral.symm.trans hl
    · cases hliteral.symm.trans hl
    · exact Or.inl ⟨by rw [hk], by rw [hshape]; rfl⟩
  · rcases hshape with ⟨hshape, -⟩ | ⟨rows, cols, -, -, hl⟩
    · exact Or.inr ⟨by rw [hk], by rw [hshape]; rfl, hbias hk⟩
    · cases hliteral.symm.trans hl

theorem Settles.shaped_affine (h : a.Settles c) (hfits : a.Fits limits)
    (hkind : a.kind = .affine) : c.Shaped .affine := by
  -- every key of the table is that of a weight
  have hkeys : ∀ key value, a.attributes.get? key = some value →
      key ∈ AttributeKey.promoted := by
    intro key value hvalue
    obtain ⟨rule, hrule, rfl, -⟩ := hfits key value hvalue
    simp only [hkind, Kind.table, List.mem_cons, List.not_mem_nil, or_false] at hrule
    rcases hrule with rfl | rfl | rfl <;> decide
  refine ⟨?_, ?_, h.weighted hfits (Or.inl hkind)⟩
  · rw [List.eq_nil_iff_forall_not_mem]
    rintro ⟨key, value⟩ hmem
    obtain ⟨hkey, hvalue⟩ := h.get?_of_left (OrderedMap.get?_eq_some_iff.mpr hmem)
    exact hkey (List.mem_cons_of_mem _ (hkeys key value hvalue))
  · cases hvalue : a.attributes.get? .dim with
    | none => rw [h.dim, hvalue, Option.bind_none]
    | some value => exact absurd (hkeys .dim value hvalue) (by decide)

theorem Settles.shaped_tdnn (h : a.Settles c) (hfits : a.Fits limits)
    (hkind : a.kind = .tdnn) : c.Shaped .tdnn := by
  -- a key of the table is that of a weight, or the offsets are kept under it
  have hkeys : ∀ key value, a.attributes.get? key = some value →
      key ∈ AttributeKey.promoted ∨ key = .timeOffsets ∧ ∃ ns, value = .ints ns := by
    intro key value hvalue
    obtain ⟨rule, hrule, rfl, hyields⟩ := hfits key value hvalue
    simp only [hkind, Kind.table, List.mem_cons, List.not_mem_nil, or_false] at hrule
    rcases hrule with rfl | rfl | rfl
    · cases value with
      | ints ns => exact Or.inr ⟨rfl, ns, rfl⟩
      | bool | int | float | floats | matrix => cases hyields
    · exact Or.inl (by decide)
    · exact Or.inl (by decide)
  refine ⟨?_, ?_, h.weighted hfits (Or.inr hkind)⟩
  · intro key value hvalue
    obtain ⟨hkey, hvalue⟩ := h.get?_of_left hvalue
    rcases hkeys key value hvalue with hmem | hoffsets
    · exact absurd (List.mem_cons_of_mem _ hmem) hkey
    · exact hoffsets
  · cases hvalue : a.attributes.get? .dim with
    | none => rw [h.dim, hvalue, Option.bind_none]
    | some value =>
      rcases hkeys .dim value hvalue with hmem | ⟨hkey, -⟩
      · exact absurd hmem (by decide)
      · cases hkey

/-- A number that a layer asks for is there, and is one. -/
theorem Fits.exists_float (hfits : a.Fits limits) (hkind : a.kind = .batchNorm)
    (hkey : key = .epsilon ∨ key = .targetRms) (hvalue : a.attributes.get? key = some value) :
    ∃ x, value = .float x := by
  obtain ⟨rule, hrule, rfl, hyields⟩ := hfits key value hvalue
  simp only [hkind, Kind.table, List.mem_cons, List.not_mem_nil, or_false] at hrule
  have hfloat : rule.literal = .float := by
    rcases hrule with rfl | rfl | rfl | rfl | rfl <;>
      first | rfl | exact absurd hkey (by decide)
  rw [hfloat] at hyields
  cases value <;> first | exact ⟨_, rfl⟩ | cases hyields

theorem Fits.exists_floats (hfits : a.Fits limits) (hkind : a.kind = .batchNorm)
    (hkey : key = .statsMean ∨ key = .statsVar) (hvalue : a.attributes.get? key = some value) :
    ∃ xs, value = .floats xs := by
  obtain ⟨rule, hrule, rfl, hyields⟩ := hfits key value hvalue
  simp only [hkind, Kind.table, List.mem_cons, List.not_mem_nil, or_false] at hrule
  have hfloats : rule.literal = .floats := by
    rcases hrule with rfl | rfl | rfl | rfl | rfl <;>
      first | rfl | exact absurd hkey (by decide)
  rw [hfloats] at hyields
  cases value <;> first | exact ⟨_, rfl⟩ | cases hyields

theorem Settles.shaped_batchNorm {b : Component} (h : a.Settles c) (hfits : a.Fits limits)
    (hkind : b.kind = .batchNorm) (hadjust : b.adjust A = (.ok (), a)) :
    c.Shaped .batchNorm := by
  rcases adjust_cases hadjust with ⟨hne, -⟩ | ⟨-, s, hs, rfl⟩
  · exact absurd hkind hne
  obtain ⟨⟨epsilon, hepsilon⟩, ⟨rms, hrms⟩, hmean, hvar, hlength⟩ :=
    BatchNorm.statistics_eq_ok hs
  generalize ha : (b.setAttribute .statsVar (.floats (s.shifts A))).setAttribute .statsMean
    (.floats (s.scales A)) = a at *
  have hkind' : a.kind = .batchNorm := by rw [← ha]; exact hkind
  have hget : ∀ key, a.attributes.get? key =
      if key = .statsMean then some (.floats (s.scales A))
      else if key = .statsVar then some (.floats (s.shifts A)) else b.attributes.get? key := by
    intro key
    rw [← ha, get?_setAttribute, get?_setAttribute]
  -- a key of the table is one of five
  have hkeys : ∀ key value, a.attributes.get? key = some value →
      key ∈ [.dim, .epsilon, .targetRms, .statsMean, .statsVar] := by
    intro key value hvalue
    obtain ⟨rule, hrule, rfl, -⟩ := hfits key value hvalue
    simp only [hkind', Kind.table, List.mem_cons, List.not_mem_nil, or_false] at hrule
    rcases hrule with rfl | rfl | rfl | rfl | rfl <;> decide
  have hnumber : ∀ key, key = .epsilon ∨ key = .targetRms →
      ∃ value, c.attributes.get? key = some value := by
    rintro key (rfl | rfl)
    · obtain ⟨value, hvalue, -⟩ := Option.bind_eq_some_iff.mp hepsilon
      exact ⟨value, by rw [h.get?_left (by decide), hget]; exact hvalue⟩
    · obtain ⟨value, hvalue, -⟩ := Option.bind_eq_some_iff.mp hrms
      exact ⟨value, by rw [h.get?_left (by decide), hget]; exact hvalue⟩
  have hleft : ∀ key value, c.attributes.get? key = some value →
      (key = .epsilon ∨ key = .targetRms) ∧ a.attributes.get? key = some value := by
    intro key value hvalue
    obtain ⟨hkey, hvalue⟩ := h.get?_of_left hvalue
    have hmem := hkeys key value hvalue
    simp only [AttributeKey.promoted, List.mem_cons, List.not_mem_nil, or_false] at hkey hmem
    exact ⟨by tauto, hvalue⟩
  refine ⟨?_, ?_, s.scales A, s.shifts A, ?_, ?_⟩
  · intro key
    rw [OrderedMap.mem_keys_iff]
    constructor
    · rintro ⟨value, hvalue⟩
      exact (hleft key value hvalue).1
    · exact hnumber key
  · intro key value hvalue
    obtain ⟨hkey, hvalue⟩ := hleft key value hvalue
    exact hfits.exists_float hkind' hkey hvalue
  · rw [s.length_scales, BatchNorm.Statistics.length_shifts A hlength]
  · have hnone : ∀ key ∈ [AttributeKey.params, .bias], a.promotion key = none := by
      intro key hkey
      cases hvalue : a.attributes.get? key with
      | none => rw [promotion, hvalue, Option.bind_none]
      | some value =>
        have hmem := hkeys key value hvalue
        rcases List.mem_pair.mp hkey with rfl | rfl <;> exact absurd hmem (by decide)
    have hmean : a.promotion .statsMean = some (.vector (s.scales A)) := by
      rw [promotion, hget]
      rfl
    have hvar : a.promotion .statsVar = some (.vector (s.shifts A)) := by
      rw [promotion, hget]
      rfl
    rw [h.constants, h.name]
    simp [moved, AttributeKey.promoted, hnone, hmean, hvar]

/-- **A settled record looks as its kind asks for.** -/
theorem Settles.shaped {b : Component} (h : a.Settles c) (hfits : a.Fits limits)
    (hadjust : b.adjust A = (.ok (), a))
    (hkind : b.kind = .generic ∨ b.kind = .affine ∨ b.kind = .batchNorm ∨ b.kind = .tdnn) :
    c.Shaped b.kind := by
  have hsame : a.kind = b.kind := congrArg (fun i => i.2.2.1) (identity_of_adjust hadjust)
  rcases hkind with hkind | hkind | hkind | hkind <;> rw [hkind]
  · exact h.shaped_generic hfits (hsame.trans hkind)
  · exact h.shaped_affine hfits (hsame.trans hkind)
  · exact h.shaped_batchNorm hfits hkind hadjust
  · exact h.shaped_tdnn hfits (hsame.trans hkind)

/-- The constants of a settled record have as many elements as their shapes tell. -/
theorem Settles.sizes (h : a.Settles c) (hfits : a.Fits limits) :
    ∀ t ∈ c.constants.values,
      t.volume = t.data.length ∧ t.data.length ≤ limits.tensorElements := by
  intro t ht
  obtain ⟨constant, hmem, rfl⟩ := List.mem_map.mp ht
  rw [h.constants] at hmem
  obtain ⟨key, -, ht, -⟩ := mem_moved.mp hmem
  obtain ⟨-, hlength, rule, -, -, hshape⟩ := hfits.shape_of_promotion ht
  refine ⟨?_, hlength⟩
  rcases hshape with ⟨hshape, -⟩ | ⟨rows, cols, hshape, hproduct, -⟩
  · rw [Tensor.volume, hshape]
    simp
  · rw [Tensor.volume, hshape, hproduct]
    simp

/-- **The dimension is known if and only if the body has one.** -/
theorem Settles.dim_isSome {b : Component} (h : a.Settles c) (hfits : a.Fits limits)
    (hadjust : b.adjust A = (.ok (), a)) :
    c.dim.isSome = true ↔ .dim ∈ b.attributes.keys := by
  -- the adjustment leaves the dimension alone
  have hget : a.attributes.get? .dim = b.attributes.get? .dim := by
    rcases adjust_cases hadjust with ⟨-, rfl⟩ | ⟨-, s, -, rfl⟩
    · rfl
    · rw [get?_setAttribute, get?_setAttribute]
      rfl
  rw [h.dim, OrderedMap.mem_keys_iff, ← hget]
  cases hvalue : a.attributes.get? .dim with
  | none => simp
  | some value =>
    obtain ⟨rule, hrule, hkey, hyields⟩ := hfits .dim value hvalue
    have hint : rule.literal = .int := by
      generalize a.kind = kind at hrule
      cases kind <;> simp only [Kind.table, List.mem_cons, List.not_mem_nil, or_false] at hrule
      all_goals rcases hrule with rfl | rfl | rfl | rfl | rfl <;> first | rfl | cases hkey
    rw [hint] at hyields
    cases value with
    | int n => simp [Value.int?]
    | bool | float | ints | floats | matrix => cases hyields

end Tables

/-- **Every body that can be read leads to a finished record**, whatever the inputs the record was
declared with, whatever the cursor and whatever the tokens that end the body. -/
theorem finished_of_readAttributes {limits : Limits} {ends : List String} {id : Nat}
    {name tag : String} {inputs : List String} {place : Position} {record finished : Component}
    {c d : Cursor} {token : String} (hdeclare : declare id name tag inputs place = .ok record)
    (hread : record.readAttributes limits ends c = (.ok token, finished, d)) :
    ∃ values e, Reads limits ends record.kind record.name c values e ∧
      e.pull = (some token, d) ∧ token ∈ ends ∧ Finished limits record values finished := by
  obtain ⟨hkind, hdim, hempty, hconstants⟩ := kind_of_declare hdeclare
  have hidentity := identity_of_readAttributes limits ends record c
  rw [hread] at hidentity
  obtain ⟨collected, hcollect, hfinish⟩ : ∃ collected,
      collect limits ends record c = (.ok token, collected, d) ∧
        collected.finish limits.arithmetic = (.ok (), finished) := by
    cases BodyOutcome.of_eq hread with
    | finished body finish => exact ⟨_, body, finish⟩
  obtain ⟨values, e, hreads, hpull, hends, rfl⟩ := exists_reads_of_collect hcollect
  refine ⟨values, e, hreads, hpull, hends, ?_⟩
  -- the values fit the table, and nothing but attributes has been written
  have hfits : (record.write values).Fits limits := by
    refine fits_write ?_ (yields_of_reads hreads)
    intro key value hvalue
    rw [hempty] at hvalue
    cases hvalue
  have hdimRead : .dim ∈ (record.write values).attributes.keys ↔
      ∃ r ∈ values, r.1.tag = "<Dim>" := by
    rw [mem_keys_write, hempty]
    constructor
    · rintro (hmem | ⟨r, hr, hkey⟩)
      · cases hmem
      · exact ⟨r, hr, (tag_of_dim (yields_of_reads hreads r hr).1).mp hkey⟩
    · rintro ⟨r, hr, htag⟩
      exact Or.inr ⟨r, hr, (tag_of_dim (yields_of_reads hreads r hr).1).mpr htag⟩
  obtain ⟨attributes, hwrite⟩ := exists_attributes_write record values
  obtain ⟨a, hadjust, hfits', hinputs, hsettles⟩ := finish_cases hfits
    (by rw [hwrite]; exact hdim) (by rw [hwrite]; exact hconstants) hfinish
  have hname : a.name = record.name := by
    have := congrArg (fun i => i.2.1) (identity_of_adjust hadjust)
    rw [hwrite] at this
    exact this
  have hkeys : finished.constants.keys =
      (AttributeKey.promoted.filter fun key => (a.promotion key).isSome).map
        (constantName record.name) := by
    rw [OrderedMap.keys, hsettles.constants, map_fst_moved, hname]
  have hshaped := hsettles.shaped hfits' hadjust (by rw [hwrite]; exact hkind)
  rw [hwrite] at hinputs hshaped
  exact
    { identity := hidentity
      inputs := by rw [hsettles.inputs, hinputs]
      constants := ⟨_, List.filter_sublist, hkeys⟩
      name := by
        rw [hkeys]
        intro hmem
        obtain ⟨key, -, hkey⟩ := List.mem_map.mp hmem
        exact constantName_ne record.name key hkey
      attributes := by
        intro key hkey hmem
        obtain ⟨value, hvalue⟩ := OrderedMap.mem_keys_iff.mp hmem
        exact (hsettles.get?_of_left hvalue).1 hkey
      sizes := hsettles.sizes hfits'
      dim := (hsettles.dim_isSome hfits' hadjust).trans hdimRead
      shaped := hshaped }

/-- The record of a layer with offsets, as it is declared. -/
def layerRecord : Component :=
  { id := 3, name := "t", kind := .tdnn, typeTag := "TdnnComponent", inputs := ["x"] }

/-- A body for it: offsets, a matrix written over two lines, and a bias without elements. -/
def layerBody : Cursor :=
  .ofText "<TimeOffsets> [ -1 0 ] <LinearParams> [ 1 2\n3 4 ]\n<BiasParams> [ ] </T>".toList

theorem finished_of_readAttributes_layer :
    declare 3 "t" "<TdnnComponent>" ["x"] ⟨1, 0⟩ = .ok layerRecord ∧
      ∃ finished d,
        layerRecord.readAttributes .standard ["</T>"] layerBody = (.ok "</T>", finished, d) ∧
        ∃ values e, Reads .standard ["</T>"] layerRecord.kind layerRecord.name layerBody values e ∧
          e.pull = (some "</T>", d) ∧ "</T>" ∈ ["</T>"] ∧
          Finished .standard layerRecord values finished := by
  have hdeclare : declare 3 "t" "<TdnnComponent>" ["x"] ⟨1, 0⟩ = .ok layerRecord := by
    decide +kernel
  have hread : (layerRecord.readAttributes .standard ["</T>"] layerBody).1 = .ok "</T>" := by
    decide +kernel
  exact ⟨hdeclare, _, _, Prod.ext hread rfl,
    finished_of_readAttributes hdeclare (Prod.ext hread rfl)⟩

end Component

end NnetText
