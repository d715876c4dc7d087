import NnetText.Proofs.Blocks
import NnetText.Proofs.BrokenBodies
import NnetText.Proofs.Constants

/-!
# The last value counts

The blocks of a body can be written in any order, and a tag can be given more than once. This file
says what of this can still be seen in the record: of each key the value of its last block, and
nothing else but the order in which the remaining attributes are listed
(`Component.readAttributes_of_lastValues`). Two tags may share a key, and are not told apart then.

Values that are written in turn leave the last one under each key (`Component.get?_write`), and the
keys in the order in which they came first (`Component.keys_write`). So the records that two bodies
make before they are finished agree as far as attributes can be looked up, which is what
`Component.Agrees` says. Each of the moves that finish a record looks attributes up and does not ask
for their order, and hence takes records that agree to records that agree.
-/

namespace NnetText

namespace Component

/-! ### Values written in turn -/

/-- **The last value of a key** among values that are written in turn. -/
def lastValue? (values : List (Rule × Value)) (key : AttributeKey) : Option Value :=
  (values.filter fun r => r.1.key = key).getLast?.map Prod.snd

theorem lastValue?_append_singleton (values : List (Rule × Value)) (r : Rule × Value)
    (key : AttributeKey) :
    lastValue? (values ++ [r]) key = if key = r.1.key then some r.2 else lastValue? values key := by
  by_cases hkey : key = r.1.key
  · simp [lastValue?, List.filter_append, hkey]
  · simp [lastValue?, List.filter_append, hkey, Ne.symm hkey]

theorem write_append_singleton (c : Component) (values : List (Rule × Value)) (r : Rule × Value) :
    c.write (values ++ [r]) = (c.write values).setAttribute r.1.key r.2 :=
  List.foldl_append

/-- **The last value is found under its key**, and what was there before if there is none. -/
theorem get?_write (c : Component) (values : List (Rule × Value)) (key : AttributeKey) :
    (c.write values).attributes.get? key =
      (lastValue? values key).or (c.attributes.get? key) := by
  induction values using List.reverseRecOn with
  | nil => rfl
  | append_singleton values r ih =>
    rw [write_append_singleton, get?_setAttribute, ih, lastValue?_append_singleton]
    split <;> rfl

/-- **The keys are listed in the order in which they came first.** -/
theorem keys_write {c : Component} (h : c.attributes = .empty) (values : List (Rule × Value)) :
    (c.write values).attributes.keys = (values.map fun r => r.1.key).eraseDups := by
  induction values using List.reverseRecOn with
  | nil =>
    change c.attributes.keys = _
    rw [h]
    rfl
  | append_singleton values r ih =>
    rw [write_append_singleton, setAttribute, OrderedMap.keys_insert, ih, List.map_append,
      List.eraseDups_append]
    by_cases hkey : r.1.key ∈ values.map fun r => r.1.key
    · rw [if_pos (List.mem_eraseDups.mpr hkey)]
      simp [List.removeAll, List.mem_map.mp hkey]
    · have hrest : [r.1.key].removeAll (values.map fun r => r.1.key) = [r.1.key] := by
        simpa [List.removeAll] using hkey
      rw [if_neg (List.mem_eraseDups.not.mpr hkey), List.map_singleton, hrest,
        List.eraseDups_cons]
      rfl

/-! ### Records that agree -/

/-- **Records that agree**: they are the same but for the order of their attributes. -/
structure Agrees (c d : Component) : Prop where
  identity : c.identity = d.identity
  inputs : c.inputs = d.inputs
  dim : c.dim = d.dim
  constants : c.constants = d.constants
  get? : ∀ key, c.attributes.get? key = d.attributes.get? key

/-- Bodies that leave the same values make records that agree. -/
theorem agrees_write (c : Component) {values values' : List (Rule × Value)}
    (h : ∀ key, lastValue? values key = lastValue? values' key) :
    (c.write values).Agrees (c.write values') := by
  refine ⟨?_, ?_, ?_, ?_, fun key => by rw [get?_write, get?_write, h]⟩
  all_goals rw [write_eq, write_eq c values']
  rfl

namespace Agrees

variable {A : Arithmetic Single} {c d c' d' : Component}

theorem name (h : c.Agrees d) : c.name = d.name := congrArg (fun i => i.2.1) h.identity

theorem kind (h : c.Agrees d) : c.kind = d.kind := congrArg (fun i => i.2.2.1) h.identity

theorem symm (h : c.Agrees d) : d.Agrees c :=
  ⟨h.identity.symm, h.inputs.symm, h.dim.symm, h.constants.symm, fun key => (h.get? key).symm⟩

theorem statistics (h : c.Agrees d) :
    BatchNorm.statistics c.attributes = BatchNorm.statistics d.attributes := by
  unfold BatchNorm.statistics BatchNorm.number BatchNorm.vector
  simp only [h.get?]

theorem setAttribute (h : c.Agrees d) (key : AttributeKey) (value : Value) :
    (c.setAttribute key value).Agrees (d.setAttribute key value) := by
  refine ⟨h.identity, h.inputs, h.dim, h.constants, fun key' => ?_⟩
  simp only [get?_setAttribute, h.get?]

theorem eraseAttribute (h : c.Agrees d) (key : AttributeKey) :
    { c with attributes := c.attributes.erase key }.Agrees
      { d with attributes := d.attributes.erase key } := by
  refine ⟨h.identity, h.inputs, h.dim, h.constants, fun key' => ?_⟩
  simp only [OrderedMap.get?_erase, h.get?]

/-- Adjusting keeps the agreement. -/
theorem adjust (h : c.Agrees d) (hc : c.adjust A = (.ok (), c'))
    (hd : d.adjust A = (.ok (), d')) : c'.Agrees d' := by
  rcases adjust_cases hc with ⟨hkind, rfl⟩ | ⟨hkind, s, hs, rfl⟩ <;>
    rcases adjust_cases hd with ⟨hkind', rfl⟩ | ⟨hkind', s', hs', rfl⟩
  · exact h
  · exact absurd (h.kind.trans hkind') hkind
  · exact absurd (h.kind.symm.trans hkind) hkind'
  · obtain rfl : s = s' := by simpa [hs, hs'] using h.statistics
    exact (h.setAttribute _ _).setAttribute _ _

/-- Lifting the dimension keeps the agreement. -/
theorem liftDim (h : c.Agrees d) : c.liftDim.Agrees d.liftDim := by
  unfold Component.liftDim
  rw [← h.get? .dim]
  cases c.attributes.get? .dim with
  | none => exact h
  | some value =>
    have herase := h.eraseAttribute .dim
    exact ⟨herase.identity, herase.inputs, rfl, herase.constants, herase.get?⟩

/-- Moving one weight keeps the agreement. -/
theorem promoteKey (h : c.Agrees d) (key : AttributeKey) :
    (c.promoteKey key).Agrees (d.promoteKey key) := by
  unfold Component.promoteKey
  rw [← h.get? key]
  cases c.attributes.get? key with
  | none => exact h
  | some value =>
    have herase := h.eraseAttribute key
    by_cases hbias : key = .bias ∧ value.isEmpty = true
    · simp only [if_pos hbias]
      exact herase
    · simp only [if_neg hbias]
      cases value.tensor? with
      | none => exact herase.setAttribute key value
      | some tensor =>
        refine ⟨herase.identity, ?_, herase.dim, ?_, herase.get?⟩
        · simp only [h.inputs, h.name]
        · simp only [h.constants, h.name]

/-- Moving all weights keeps the agreement. -/
theorem promote (h : c.Agrees d) : c.promote.Agrees d.promote := by
  unfold Component.promote
  induction AttributeKey.promoted generalizing c d with
  | nil => exact h
  | cons key keys ih => exact ih (h.promoteKey key)

/-- **Finished records agree** if they did before. -/
theorem finish (h : c.Agrees d) (hc : c.finish A = (.ok (), c'))
    (hd : d.finish A = (.ok (), d')) : c'.Agrees d' := by
  obtain ⟨a, ha, rfl⟩ := finish_eq_ok_iff.mp hc
  obtain ⟨b, hb, rfl⟩ := finish_eq_ok_iff.mp hd
  exact (h.adjust ha hb).liftDim.promote

/-- **Of records that agree none can be finished if one cannot**, for the same reason. -/
theorem finish_eq_error (h : c.Agrees d) {e : ParseError} (hc : c.finish A = (.error e, c')) :
    d.finish A = (.error e, d) := by
  obtain ⟨hkind, fault, hfault, rfl, -⟩ := finish_eq_error_iff.mp hc
  rw [h.name]
  exact finish_eq_error_iff.mpr
    ⟨h.kind.symm.trans hkind, fault, h.statistics.symm.trans hfault, rfl, rfl⟩

end Agrees

/-! ### What a body leaves -/

/-- Adjusting a record touches its weights only. -/
theorem get?_of_adjust {A : Arithmetic Single} {c a : Component} (h : c.adjust A = (.ok (), a))
    {key : AttributeKey} (hkey : key ∉ AttributeKey.promoted) :
    a.attributes.get? key = c.attributes.get? key := by
  rcases adjust_cases h with ⟨-, rfl⟩ | ⟨-, s, -, rfl⟩
  · rfl
  · have hmean : key ≠ .statsMean := fun heq => hkey (heq ▸ by decide)
    have hvar : key ≠ .statsVar := fun heq => hkey (heq ▸ by decide)
    rw [get?_setAttribute, if_neg hmean, get?_setAttribute, if_neg hvar]

/-- Adjusting a record keeps the order of its attributes. -/
theorem keys_of_adjust {A : Arithmetic Single} {c a : Component}
    (h : c.adjust A = (.ok (), a)) : a.attributes.keys = c.attributes.keys := by
  rcases adjust_cases h with ⟨-, rfl⟩ | ⟨-, s, hs, rfl⟩
  · rfl
  · obtain ⟨-, -, hmean, hvar, -⟩ := BatchNorm.statistics_eq_ok hs
    -- the statistics are there already
    obtain ⟨mean, hmean, -⟩ := Option.bind_eq_some_iff.mp hmean
    obtain ⟨var, hvar, -⟩ := Option.bind_eq_some_iff.mp hvar
    have hkeys : (c.setAttribute .statsVar (.floats (s.shifts A))).attributes.keys =
        c.attributes.keys := by
      rw [setAttribute, OrderedMap.keys_insert, if_pos (OrderedMap.mem_keys_iff.mpr ⟨var, hvar⟩)]
    rw [setAttribute, OrderedMap.keys_insert, hkeys,
      if_pos (OrderedMap.mem_keys_iff.mpr ⟨mean, hmean⟩)]

namespace Body

variable {limits : Limits} {ends : List String} {kind : Kind}

/-- **The last value of a key in a body.** -/
def last? (b : Body limits ends kind) (key : AttributeKey) : Option Value :=
  lastValue? b.values key

/-- **The keys of a body**, each where it comes first. -/
def keys (b : Body limits ends kind) : List AttributeKey :=
  (b.blocks.map fun block => block.rule.key).eraseDups

/-- **What a body leaves in a finished record**: the last dimension, and the last values of all keys
that are neither the dimension nor a weight, in the order in which these keys came first. -/
structure Leaves (b : Body limits ends kind) (c : Component) : Prop where
  dim : c.dim = (b.last? .dim).bind Value.int?
  get? : ∀ key, c.attributes.get? key =
    if key ∈ .dim :: AttributeKey.promoted then none else b.last? key
  keys : c.attributes.keys = b.keys.filter fun key => key ∉ .dim :: AttributeKey.promoted

theorem leaves_of_finish {A : Arithmetic Single} {record finished : Component}
    (b : Body limits ends record.kind) (h : record.Fresh)
    (hfinish : (record.write b.values).finish A = (.ok (), finished)) : b.Leaves finished := by
  obtain ⟨a, hadjust, -, hsettles⟩ := h.exists_settles b.yields hfinish
  have hget {key : AttributeKey} (hkey : key ∉ AttributeKey.promoted) :
      a.attributes.get? key = b.last? key := by
    rw [get?_of_adjust hadjust hkey, get?_write, h.attributes]
    exact Option.or_none
  refine ⟨?_, ?_, ?_⟩
  · rw [hsettles.dim, hget (by decide)]
  · intro key
    rw [hsettles.attributes, OrderedMap.get?_foldl_erase]
    split
    · rfl
    · rename_i hkey
      exact hget fun hmem => hkey (List.mem_cons_of_mem _ hmem)
  · rw [hsettles.attributes, OrderedMap.keys_foldl_erase, keys_of_adjust hadjust,
      keys_write h.attributes, keys, values, List.map_map]
    rfl

/-- **How a body comes out** is how the record comes out that holds its values. -/
theorem exists_readAttributes (b : Body limits ends kind) {record : Component} {c : Cursor}
    {later : List SourceLine} (hkind : record.kind = kind) (hc : c.Faces b.text later) :
    ∃ d,
      (∀ e left, (record.write b.values).finish limits.arithmetic = (.error e, left) →
        record.readAttributes limits ends c = (.error e, left, d)) ∧
      ∀ finished, (record.write b.values).finish limits.arithmetic = (.ok (), finished) →
        record.readAttributes limits ends c = (.ok b.terminator, finished, d) := by
  obtain ⟨d, hcollect⟩ := b.exists_collect hkind hc
  refine ⟨d, ?_, ?_⟩
  · intro e left hfinish
    rw [readAttributes, hcollect]
    simp only [hfinish]
  · intro finished hfinish
    rw [readAttributes, hcollect]
    simp only [hfinish]

end Body

/-- **Only the last value of each key matters.** Two bodies made of blocks are read into a record
that has been declared, whatever its kind, its name and its inputs are. If they leave the same
values, key by key, the outcome is the same. Either both fail, for the same reason; or both make
records that agree in everything but the order in which attributes are listed, and that order is the
one in which their keys came first. -/
theorem readAttributes_of_lastValues {limits : Limits} {id : Nat} {name tag : String}
    {inputs : List String} {place : Position} {record : Component}
    (hdeclare : declare id name tag inputs place = .ok record) {ends ends' : List String}
    (b : Body limits ends record.kind) (b' : Body limits ends' record.kind)
    (hlast : ∀ key, b.last? key = b'.last? key) {c c' : Cursor} {later later' : List SourceLine}
    (hc : c.Faces b.text later) (hc' : c'.Faces b'.text later') :
    (∃ reason collected collected' d d',
      record.readAttributes limits ends c =
        (.error (.inconsistentAttributes name reason), collected, d) ∧
      record.readAttributes limits ends' c' =
        (.error (.inconsistentAttributes name reason), collected', d')) ∨
    ∃ finished finished' d d',
      record.readAttributes limits ends c = (.ok b.terminator, finished, d) ∧
      record.readAttributes limits ends' c' = (.ok b'.terminator, finished', d') ∧
      finished.Agrees finished' ∧ b.Leaves finished ∧ b'.Leaves finished' := by
  obtain ⟨d, hfails, hreads⟩ := b.exists_readAttributes rfl hc
  obtain ⟨d', hfails', hreads'⟩ := b'.exists_readAttributes rfl hc'
  have hfresh := fresh_of_declare hdeclare
  have hagrees := agrees_write record hlast
  rcases hfinish : (record.write b.values).finish limits.arithmetic with ⟨e | ⟨⟩, finished⟩
  · left
    obtain ⟨reason, rfl⟩ := exists_reason_of_finish hfinish
    have hname : (record.write b.values).name = name := by
      rw [write_eq]
      exact (identity_of_declare hdeclare).2.1
    rw [hname] at hfinish
    exact ⟨reason, _, _, d, d', hfails _ _ hfinish, hfails' _ _ (hagrees.finish_eq_error hfinish)⟩
  · right
    rcases hfinish' : (record.write b'.values).finish limits.arithmetic with ⟨e | ⟨⟩, finished'⟩
    · cases hfinish.symm.trans (hagrees.symm.finish_eq_error hfinish')
    · exact ⟨finished, finished', d, d', hreads _ hfinish, hreads' _ hfinish',
        hagrees.finish hfinish hfinish', b.leaves_of_finish hfresh hfinish,
        b'.leaves_of_finish hfresh hfinish'⟩

/-- A normalization layer that nothing has been read into. -/
def bareLayer : Component :=
  { id := 0, name := "bn", kind := .batchNorm, typeTag := "BatchNormComponent",
    inputs := ["input"] }

def epsilonBlock : Block .standard .batchNorm :=
  .ofReading ⟨"<Epsilon>", .float, .epsilon⟩ (.float (Format.double.ofInt 1))
    "<Epsilon> 1\n".toList (by decide +kernel)

def targetBlock : Block .standard .batchNorm :=
  .ofReading ⟨"<TargetRms>", .float, .targetRms⟩ (.float (Format.double.ofInt 1))
    "<TargetRms> 1\n".toList (by decide +kernel)

def oneMeanBlock : Block .standard .batchNorm :=
  .ofReading ⟨"<StatsMean>", .floats, .statsMean⟩ (.floats [Format.single.ofInt 1])
    "<StatsMean> [ 1 ]\n".toList (by decide +kernel)

/-- No means, on two lines. -/
def noMeanBlock : Block .standard .batchNorm :=
  .ofReading ⟨"<StatsMean>", .floats, .statsMean⟩ (.floats []) "<StatsMean> [\n]\n".toList
    (by decide +kernel)

def noVarianceBlock : Block .standard .batchNorm :=
  .ofReading ⟨"<StatsVar>", .floats, .statsVar⟩ (.floats []) "<StatsVar> [ ]\n".toList
    (by decide +kernel)

/-- A body that gives the means twice. The first time there are too many of them. -/
def amendedBody : Body .standard ["</BatchNormComponent>"] .batchNorm where
  blocks := [epsilonBlock, oneMeanBlock, targetBlock, noVarianceBlock, noMeanBlock]
  terminator := "</BatchNormComponent>"
  closing := "</BatchNormComponent>\n".toList
  tags := by decide
  terminates := by decide
  closes := by decide +kernel

/-- A body that gives each value once, in another order. -/
def plainBody : Body .standard ["</BatchNormComponent>"] .batchNorm where
  blocks := [noVarianceBlock, targetBlock, noMeanBlock, epsilonBlock]
  terminator := "</BatchNormComponent>"
  closing := "</BatchNormComponent>\n".toList
  tags := by decide
  terminates := by decide
  closes := by decide +kernel

theorem readAttributes_of_lastValues_amendedBody :
    (∀ key, amendedBody.last? key = plainBody.last? key) ∧
      ∃ finished finished' d d',
        bareLayer.readAttributes .standard ["</BatchNormComponent>"] (.ofText amendedBody.text) =
          (.ok "</BatchNormComponent>", finished, d) ∧
        bareLayer.readAttributes .standard ["</BatchNormComponent>"] (.ofText plainBody.text) =
          (.ok "</BatchNormComponent>", finished', d') ∧
        finished.Agrees finished' ∧ finished.attributes.keys = [.epsilon, .targetRms] ∧
        finished'.attributes.keys = [.targetRms, .epsilon] := by
  have hdeclare : declare 0 "bn" "<BatchNormComponent>" ["input"] ⟨1, 0⟩ = .ok bareLayer := by
    decide +kernel
  have hlast : ∀ key, amendedBody.last? key = plainBody.last? key := by
    intro key
    cases key <;> rfl
  have hok : (bareLayer.readAttributes .standard ["</BatchNormComponent>"]
      (.ofText amendedBody.text)).1 = .ok "</BatchNormComponent>" := by decide +kernel
  refine ⟨hlast, ?_⟩
  rcases readAttributes_of_lastValues hdeclare amendedBody plainBody hlast
      (Cursor.faces_ofText amendedBody.text) (Cursor.faces_ofText plainBody.text) with
    ⟨reason, collected, -, d, -, hread, -⟩ |
      ⟨finished, finished', d, d', hread, hread', hagrees, hleaves, hleaves'⟩
  · rw [hread] at hok
    cases hok
  · have hkeys := hleaves.keys
    have hkeys' := hleaves'.keys
    exact ⟨finished, finished', d, d', hread, hread', hagrees, hkeys.trans (by decide),
      hkeys'.trans (by decide)⟩

end Component

end NnetText
