import Mathlib.Analysis.SpecialFunctions.Pow.Real
import NnetText.Proofs.LastValues

/-!
# Normalization layers are folded as they should be

The body of a normalization layer gives an epsilon, a target size, and a mean and a variance for
each channel. When it ends, the four are folded into one scale and one shift for each channel,
which are kept under the keys of mean and variance, and then become constants. This file says when
that can be done, why not if it cannot, and what the constants are
(`Component.readAttributes_batchNorm`).

What counts is the last value of each key (`BatchNorm.Given`), and the first key without a value
(`BatchNorm.firstMissing?`). Folding takes its arithmetic as an argument, and what it computes for a
channel is the same in all of them (`BatchNorm.Statistics.getElem?_scales`,
`BatchNorm.Statistics.getElem?_shifts`). The constants of a layer hold what it computes in the
arithmetic that reading goes by. In the real numbers (`Arithmetic.real`), a value times its scale
plus its shift is the normalized value (`BatchNorm.Statistics.normalizes`).
-/

namespace NnetText

open Component (lastValue?)

/-- The arithmetic of the real numbers. -/
noncomputable def Arithmetic.real : Arithmetic ℝ where
  add := fun x y => x + y
  mul := fun x y => x * y
  neg := fun x => -x
  invSqrt := fun x => x ^ (-(1 / 2) : ℝ)

namespace BatchNorm

/-! ### Scale and shift -/

namespace Statistics

variable {α : Type} {s : Statistics α} {i : Nat} {m v : α}

/-- **The scale of a channel**, in any arithmetic. -/
theorem getElem?_scales (A : Arithmetic α) (hv : s.var[i]? = some v) :
    (s.scales A)[i]? = some (A.mul s.targetRms (A.invSqrt (A.add v s.epsilon))) := by
  rw [scales, List.getElem?_map, hv, Option.map_some, scale]

/-- **The shift of a channel**, in any arithmetic. -/
theorem getElem?_shifts (A : Arithmetic α) (hm : s.mean[i]? = some m) (hv : s.var[i]? = some v) :
    (s.shifts A)[i]? =
      some (A.neg (A.mul (A.mul s.targetRms (A.invSqrt (A.add v s.epsilon))) m)) := by
  simp only [shifts, List.getElem?_zipWith, getElem?_scales A hv, hm, shift]

/-- **Scale and shift normalize** over the real numbers, as long as the root can be taken. -/
theorem normalizes {s : Statistics ℝ} {m v : ℝ} (hm : s.mean[i]? = some m)
    (hv : s.var[i]? = some v) (h : 0 < v + s.epsilon) :
    ∃ scale shift, (s.scales .real)[i]? = some scale ∧ (s.shifts .real)[i]? = some shift ∧
      ∀ x, scale * x + shift = s.targetRms * (x - m) / √(v + s.epsilon) := by
  refine ⟨_, _, getElem?_scales .real hv, getElem?_shifts .real hm hv, fun x => ?_⟩
  have hpower : (v + s.epsilon) ^ (-(1 / 2) : ℝ) = (√(v + s.epsilon))⁻¹ := by
    rw [Real.rpow_neg h.le, ← Real.sqrt_eq_rpow]
  simp only [Arithmetic.real, hpower]
  rw [div_eq_mul_inv]
  ring

end Statistics

/-! ### Statistics that are there -/

/-- The keys of the statistics, in the order in which they are asked for. -/
def required : List AttributeKey := [.epsilon, .targetRms, .statsMean, .statsVar]

/-- **The first key of the statistics without a value**, if there is one. -/
def firstMissing? (values : List (Rule × Value)) : Option AttributeKey :=
  required.find? fun key => (lastValue? values key).isNone

/-- **The statistics that a body gives**: the last value of each key. -/
structure Given (values : List (Rule × Value)) (epsilon targetRms : Double)
    (mean var : List Single) : Prop where
  epsilon : lastValue? values .epsilon = some (.float epsilon)
  targetRms : lastValue? values .targetRms = some (.float targetRms)
  statsMean : lastValue? values .statsMean = some (.floats mean)
  statsVar : lastValue? values .statsVar = some (.floats var)

variable {values : List (Rule × Value)} {epsilon targetRms : Double} {mean var : List Single}

theorem Given.firstMissing?_eq (h : Given values epsilon targetRms mean var) :
    firstMissing? values = none := by
  simp [firstMissing?, required, h.epsilon, h.targetRms, h.statsMean, h.statsVar]

/-- The values of the statistics have the forms that the table asks for. -/
structure Formed (values : List (Rule × Value)) : Prop where
  float : ∀ key, key = .epsilon ∨ key = .targetRms → ∀ value, lastValue? values key = some value →
    ∃ x, value = .float x
  floats : ∀ key, key = .statsMean ∨ key = .statsVar → ∀ value, lastValue? values key = some value →
    ∃ xs, value = .floats xs

section Statistics

variable {attributes : OrderedMap AttributeKey Value}
  (hget : ∀ key, attributes.get? key = lastValue? values key)
include hget

/-- **Statistics that are given** are found, if there is one mean to each variance. -/
theorem statistics_of_given (h : Given values epsilon targetRms mean var) :
    statistics attributes =
      if mean.length = var.length then
        .ok ⟨epsilon.convert .single, targetRms.convert .single, mean, var⟩
      else .error (.lengths mean.length var.length) := by
  simp [statistics, number, vector, hget, h.epsilon, h.targetRms, h.statsMean, h.statsVar,
    Value.float?, Value.floats?, bind, Except.bind]

/-- **The statistics are given, or the first that is missing is the fault.** -/
theorem given_or_missing (hformed : Formed values) :
    (∃ epsilon targetRms mean var, Given values epsilon targetRms mean var) ∨
      ∃ key, firstMissing? values = some key ∧ statistics attributes = .error (.missing key) := by
  -- one key after the other, as they are asked for
  rcases hepsilon : lastValue? values .epsilon with _ | value
  · exact Or.inr ⟨.epsilon, by simp [firstMissing?, required, hepsilon],
      by simp [statistics, number, hget, hepsilon, bind, Except.bind]⟩
  obtain ⟨epsilon, rfl⟩ := hformed.float _ (Or.inl rfl) _ hepsilon
  rcases hrms : lastValue? values .targetRms with _ | value
  · exact Or.inr ⟨.targetRms, by simp [firstMissing?, required, hepsilon, hrms],
      by simp [statistics, number, hget, hepsilon, hrms, Value.float?, bind, Except.bind]⟩
  obtain ⟨targetRms, rfl⟩ := hformed.float _ (Or.inr rfl) _ hrms
  rcases hmean : lastValue? values .statsMean with _ | value
  · exact Or.inr ⟨.statsMean, by simp [firstMissing?, required, hepsilon, hrms, hmean],
      by simp [statistics, number, vector, hget, hepsilon, hrms, hmean, Value.float?, bind,
        Except.bind]⟩
  obtain ⟨mean, rfl⟩ := hformed.floats _ (Or.inl rfl) _ hmean
  rcases hvar : lastValue? values .statsVar with _ | value
  · exact Or.inr ⟨.statsVar, by simp [firstMissing?, required, hepsilon, hrms, hmean, hvar],
      by simp [statistics, number, vector, hget, hepsilon, hrms, hmean, hvar, Value.float?,
        Value.floats?, bind, Except.bind]⟩
  obtain ⟨var, rfl⟩ := hformed.floats _ (Or.inr rfl) _ hvar
  exact Or.inl ⟨epsilon, targetRms, mean, var, hepsilon, hrms, hmean, hvar⟩

end Statistics

end BatchNorm

/-! ### Layers -/

namespace Component

variable {limits : Limits} {ends : List String} {record finished : Component} {c d e : Cursor}
  {values : List (Rule × Value)} {token : String}

/-- The attributes of a record that was fresh are the last values of its body. -/
theorem Fresh.get?_write (h : record.Fresh) (values : List (Rule × Value)) (key : AttributeKey) :
    (record.write values).attributes.get? key = lastValue? values key := by
  rw [Component.get?_write, h.attributes]
  exact Option.or_none

theorem Fresh.formed (h : record.Fresh) (hkind : record.kind = .batchNorm)
    (hreads : Reads limits ends record.kind record.name c values e) :
    BatchNorm.Formed values := by
  have hfits := h.fits_write (yields_of_reads hreads)
  have hkind' := (record.kind_write values).trans hkind
  constructor
  · intro key hkey value hvalue
    exact hfits.exists_float hkind' hkey ((h.get?_write values key).trans hvalue)
  · intro key hkey value hvalue
    exact hfits.exists_floats hkind' hkey ((h.get?_write values key).trans hvalue)

/-- **A body that has been read up to its end** has left its values. -/
theorem collect_of_terminated (hreads : Reads limits ends record.kind record.name c values e)
    (hpull : e.pull = (some token, d)) (hends : token ∈ ends) :
    record.collect limits ends c = (.ok token, record.write values, d) := by
  rw [collect_of_reads hreads, collect_eq, hpull]
  simp only [if_pos hends]

/-- A weight of a settled record is found under its name. -/
theorem Settles.get?_constants {a : Component} {key : AttributeKey} {t : Tensor}
    (h : a.Settles finished) (hkey : key ∈ AttributeKey.promoted)
    (ht : a.promotion key = some t) :
    finished.constants.get? (constantName a.name key) = some t := by
  rw [OrderedMap.get?_eq_some_iff, h.constants, mem_moved]
  exact ⟨key, hkey, ht, rfl⟩

/-- **The constants of a folded layer**: its scales under the key of the means, and its shifts under
the key of the variances. -/
theorem Fresh.constants_of_finish {A : Arithmetic Single} {s : BatchNorm.Statistics Single}
    (h : record.Fresh) (hkind : record.kind = .batchNorm)
    (hreads : Reads limits ends record.kind record.name c values e)
    (hs : BatchNorm.statistics (record.write values).attributes = .ok s)
    (hfinish : (record.write values).finish A = (.ok (), finished)) :
    finished.constants.get? (constantName record.name .statsMean) =
        some (.vector (s.scales A)) ∧
      finished.constants.get? (constantName record.name .statsVar) =
        some (.vector (s.shifts A)) := by
  have hkind' := (record.kind_write values).trans hkind
  obtain ⟨a, hadjust, -, hsettles⟩ := h.exists_settles (yields_of_reads hreads) hfinish
  rcases adjust_cases hadjust with ⟨hne, -⟩ | ⟨-, s', hs', rfl⟩
  · exact absurd hkind' hne
  obtain rfl : s = s' := Except.ok.inj (hs.symm.trans hs')
  rw [← record.name_write values]
  constructor
  · refine hsettles.get?_constants (by decide) ?_
    rw [promotion, get?_setAttribute]
    rfl
  · refine hsettles.get?_constants (by decide) ?_
    rw [promotion, get?_setAttribute, get?_setAttribute]
    rfl

/-- Statistics that can be folded let the record be finished. -/
theorem exists_finish_of_statistics (A : Arithmetic Single) {s : BatchNorm.Statistics Single}
    (hs : BatchNorm.statistics record.attributes = .ok s) :
    ∃ finished, record.finish A = (.ok (), finished) := by
  rcases hfinish : record.finish A with ⟨e | ⟨⟩, finished⟩
  · obtain ⟨-, fault, hfault, -⟩ := finish_eq_error_iff.mp hfinish
    cases hs.symm.trans hfault
  · exact ⟨finished, rfl⟩

/-- Statistics that cannot be folded are the fault of the record. -/
theorem readAttributes_of_fault {fault : BatchNorm.Fault} (hkind : record.kind = .batchNorm)
    (hreads : Reads limits ends record.kind record.name c values e)
    (hpull : e.pull = (some token, d)) (hends : token ∈ ends)
    (hfault : BatchNorm.statistics (record.write values).attributes = .error fault) :
    record.readAttributes limits ends c =
      (.error (.inconsistentAttributes record.name fault.reason), record.write values, d) := by
  have hkind' := (record.kind_write values).trans hkind
  have hfinish : (record.write values).finish limits.arithmetic = _ :=
    finish_eq_error_iff.mpr ⟨hkind', fault, hfault, rfl, rfl⟩
  simp only [readAttributes, collect_of_terminated hreads hpull hends, hfinish, name_write]

/-- **A layer whose statistics are given** is folded, if there is one mean to each variance. -/
theorem Fresh.exists_folded {epsilon targetRms : Double} {mean var : List Single}
    (h : record.Fresh) (hkind : record.kind = .batchNorm)
    (hreads : Reads limits ends record.kind record.name c values e)
    (hpull : e.pull = (some token, d)) (hends : token ∈ ends)
    (hgiven : BatchNorm.Given values epsilon targetRms mean var)
    (hlength : mean.length = var.length) :
    ∃ finished, record.readAttributes limits ends c = (.ok token, finished, d) ∧
      finished.constants.get? (constantName record.name .statsMean) = some (.vector
        ((⟨epsilon.convert .single, targetRms.convert .single, mean, var⟩ :
          BatchNorm.Statistics Single).scales limits.arithmetic)) ∧
      finished.constants.get? (constantName record.name .statsVar) = some (.vector
        ((⟨epsilon.convert .single, targetRms.convert .single, mean, var⟩ :
          BatchNorm.Statistics Single).shifts limits.arithmetic)) := by
  have hs := BatchNorm.statistics_of_given (h.get?_write values) hgiven
  rw [if_pos hlength] at hs
  obtain ⟨finished, hfinish⟩ := exists_finish_of_statistics limits.arithmetic hs
  refine ⟨finished, ?_, h.constants_of_finish hkind hreads hs hfinish⟩
  simp only [readAttributes, collect_of_terminated hreads hpull hends, hfinish]

/-- **Normalization layers are folded as they should be.** Once the body of a fresh layer has been
read up to its end, reading succeeds exactly if all statistics were given and there is one mean to
each variance. Otherwise the error names the first key without a value, or both lengths. The
constants of a layer that was read hold the scale and the shift of each channel, computed from the
statistics as they were given, in whatever arithmetic reading goes by. The same computation over
the real numbers normalizes. -/
theorem readAttributes_batchNorm {id : Nat} {name tag : String} {inputs : List String}
    {place : Position} (hdeclare : declare id name tag inputs place = .ok record)
    (hkind : record.kind = .batchNorm) (hreads : Reads limits ends .batchNorm name c values e)
    (hpull : e.pull = (some token, d)) (hends : token ∈ ends) :
    ((record.readAttributes limits ends c).1 = .ok token ↔
      ∃ epsilon targetRms mean var, BatchNorm.Given values epsilon targetRms mean var ∧
        mean.length = var.length) ∧
    (BatchNorm.firstMissing? values = none ↔
      ∃ epsilon targetRms mean var, BatchNorm.Given values epsilon targetRms mean var) ∧
    (∀ key, BatchNorm.firstMissing? values = some key →
      (record.readAttributes limits ends c).1 =
        .error (.inconsistentAttributes name ("missing attribute " ++ key.name))) ∧
    (∀ epsilon targetRms mean var, BatchNorm.Given values epsilon targetRms mean var →
      (mean.length ≠ var.length →
        (record.readAttributes limits ends c).1 =
          .error (.inconsistentAttributes name ("stats_mean has " ++ toString mean.length ++
            " elements but stats_var has " ++ toString var.length))) ∧
      (mean.length = var.length →
        ∃ (finished : Component) (s : BatchNorm.Statistics Single),
          record.readAttributes limits ends c = (.ok token, finished, d) ∧
          s = ⟨epsilon.convert .single, targetRms.convert .single, mean, var⟩ ∧
          finished.constants.get? (name ++ "_stats_mean") =
            some (.vector (s.scales limits.arithmetic)) ∧
          finished.constants.get? (name ++ "_stats_var") =
            some (.vector (s.shifts limits.arithmetic)) ∧
          (s.scales limits.arithmetic).length = mean.length ∧
          (s.shifts limits.arithmetic).length = mean.length)) ∧
    -- what is computed for a channel, in any arithmetic
    (∀ (α : Type) (A : Arithmetic α) (s : BatchNorm.Statistics α) (i : Nat) (m v : α),
      s.mean[i]? = some m → s.var[i]? = some v →
        ∃ scale, scale = A.mul s.targetRms (A.invSqrt (A.add v s.epsilon)) ∧
          (s.scales A)[i]? = some scale ∧ (s.shifts A)[i]? = some (A.neg (A.mul scale m))) ∧
    -- and what it does over the real numbers
    ∀ (s : BatchNorm.Statistics ℝ) (i : Nat) (m v : ℝ),
      s.mean[i]? = some m → s.var[i]? = some v → 0 < v + s.epsilon →
        ∃ scale shift, (s.scales .real)[i]? = some scale ∧ (s.shifts .real)[i]? = some shift ∧
          ∀ x, scale * x + shift = s.targetRms * (x - m) / √(v + s.epsilon) := by
  obtain ⟨-, rfl, -⟩ := identity_of_declare hdeclare
  have hfresh := fresh_of_declare hdeclare
  have hget := hfresh.get?_write values
  rw [← hkind] at hreads
  have hformed := hfresh.formed hkind hreads
  -- the two ways to fail
  have hmissing : ∀ key, BatchNorm.firstMissing? values = some key →
      (record.readAttributes limits ends c).1 =
        .error (.inconsistentAttributes record.name ("missing attribute " ++ key.name)) := by
    intro key hkey
    rcases BatchNorm.given_or_missing hget hformed with
      ⟨epsilon, targetRms, mean, var, hgiven⟩ | ⟨key', hkey', hfault⟩
    · cases hgiven.firstMissing?_eq.symm.trans hkey
    · obtain rfl := Option.some.inj (hkey.symm.trans hkey')
      rw [readAttributes_of_fault hkind hreads hpull hends hfault]
      rfl
  have hlengths : ∀ epsilon targetRms mean var,
      BatchNorm.Given values epsilon targetRms mean var → mean.length ≠ var.length →
        (record.readAttributes limits ends c).1 =
          .error (.inconsistentAttributes record.name ("stats_mean has " ++
            toString mean.length ++ " elements but stats_var has " ++ toString var.length)) := by
    intro epsilon targetRms mean var hgiven hne
    have hfault := BatchNorm.statistics_of_given hget hgiven
    rw [if_neg hne] at hfault
    rw [readAttributes_of_fault hkind hreads hpull hends hfault]
    rfl
  refine ⟨⟨?_, ?_⟩, ⟨?_, ?_⟩, hmissing, ?_, ?_, fun s i m v => BatchNorm.Statistics.normalizes⟩
  · intro hok
    rcases BatchNorm.given_or_missing hget hformed with
      ⟨epsilon, targetRms, mean, var, hgiven⟩ | ⟨key, hkey, -⟩
    · refine ⟨epsilon, targetRms, mean, var, hgiven, ?_⟩
      by_contra hne
      cases hok.symm.trans (hlengths epsilon targetRms mean var hgiven hne)
    · cases hok.symm.trans (hmissing key hkey)
  · rintro ⟨epsilon, targetRms, mean, var, hgiven, hlength⟩
    obtain ⟨finished, hread, -⟩ :=
      hfresh.exists_folded hkind hreads hpull hends hgiven hlength
    rw [hread]
  · intro hnone
    rcases BatchNorm.given_or_missing hget hformed with hgiven | ⟨key, hkey, -⟩
    · exact hgiven
    · cases hnone.symm.trans hkey
  · rintro ⟨epsilon, targetRms, mean, var, hgiven⟩
    exact hgiven.firstMissing?_eq
  · intro epsilon targetRms mean var hgiven
    refine ⟨hlengths epsilon targetRms mean var hgiven, fun hlength => ?_⟩
    obtain ⟨finished, hread, hmean, hvar⟩ :=
      hfresh.exists_folded hkind hreads hpull hends hgiven hlength
    rw [constantName, String.append_assoc] at hmean hvar
    refine ⟨finished, _, hread, rfl, hmean, hvar, ?_, ?_⟩
    · rw [BatchNorm.Statistics.length_scales, hlength]
    · rw [BatchNorm.Statistics.length_shifts _ hlength, hlength]
  · intro α A s i m v hm hv
    exact ⟨_, rfl, BatchNorm.Statistics.getElem?_scales A hv,
      BatchNorm.Statistics.getElem?_shifts A hm hv⟩

/-- A tag and its value, in terms of what is read at the cursor. -/
theorem Reads.of_tag {kind : Kind} {name : String} {rule : Rule} {value : Value} {f : Cursor}
    (hpull : c.pull.1 = some rule.tag) (hends : rule.tag ∉ ends)
    (hrule : kind.rule? rule.tag = some rule)
    (hread : (rule.literal.read limits c.pull.2).1 = .ok value)
    (h : Reads limits ends kind name (rule.literal.read limits c.pull.2).2 values f) :
    Reads limits ends kind name c ((rule, value) :: values) f :=
  .value (Prod.ext hpull rfl) hends hrule (Prod.ext hread rfl) h

/-- A body with one channel, of variance four around two. -/
def channelBody : Cursor :=
  .within ("<StatsVar> [ 4 ] ".toList ++ "<Epsilon> 0 ".toList ++ "<TargetRms> 1 ".toList ++
    "<StatsMean> [ 2 ] ".toList ++ "</B>".toList) 0 []

def channelValues : List (Rule × Value) :=
  [(⟨"<StatsVar>", .floats, .statsVar⟩, .floats [Format.single.ofInt 4]),
    (⟨"<Epsilon>", .float, .epsilon⟩, .float (Format.double.ofInt 0)),
    (⟨"<TargetRms>", .float, .targetRms⟩, .float (Format.double.ofInt 1)),
    (⟨"<StatsMean>", .floats, .statsMean⟩, .floats [Format.single.ofInt 2])]

theorem exists_reads_channelBody : ∃ e d,
    Reads .standard ["</B>"] .batchNorm "bn" channelBody channelValues e ∧
      e.pull = (some "</B>", d) := by
  refine ⟨_, _, .of_tag ?_ ?_ ?_ ?_ (.of_tag ?_ ?_ ?_ ?_ (.of_tag ?_ ?_ ?_ ?_
    (.of_tag ?_ ?_ ?_ ?_ .none))), Prod.ext ?_ rfl⟩
  all_goals decide +kernel

/-- The scale of the channel is one half, and its shift minus one. -/
theorem readAttributes_batchNorm_channelBody :
    ∃ e d, Reads .standard ["</B>"] .batchNorm "bn" channelBody channelValues e ∧
      e.pull = (some "</B>", d) ∧
      ∃ finished,
        bareLayer.readAttributes .standard ["</B>"] channelBody = (.ok "</B>", finished, d) ∧
        finished.constants.get? "bn_stats_mean" =
          some (.vector [Format.single.ofRatio false 1 2]) ∧
        finished.constants.get? "bn_stats_var" = some (.vector [Format.single.ofInt (-1)]) := by
  have hdeclare : declare 0 "bn" "<BatchNormComponent>" ["input"] ⟨1, 0⟩ = .ok bareLayer := by
    decide +kernel
  have hgiven : BatchNorm.Given channelValues (Format.double.ofInt 0) (Format.double.ofInt 1)
      [Format.single.ofInt 2] [Format.single.ofInt 4] := ⟨rfl, rfl, rfl, rfl⟩
  obtain ⟨e, d, hreads, hpull⟩ := exists_reads_channelBody
  obtain ⟨-, -, -, hfolds, -⟩ :=
    readAttributes_batchNorm hdeclare rfl hreads hpull (List.mem_singleton.mpr rfl)
  obtain ⟨finished, s, hread, rfl, hmean, hvar, -⟩ := (hfolds _ _ _ _ hgiven).2 rfl
  refine ⟨e, d, hreads, hpull, finished, hread, hmean.trans ?_, hvar.trans ?_⟩
  · decide +kernel
  · decide +kernel

end Component

end NnetText
