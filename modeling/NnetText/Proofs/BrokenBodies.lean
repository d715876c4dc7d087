import NnetText.Proofs.Bodies
import NnetText.Proofs.Correspondence

/-!
# Bodies that break off

Reading the body of a declaration can fail at any token, and can fail once more at its end, when
the attributes turn out not to fit together. Whoever holds the record afterwards should know what
is in it. The answer is short: what was in it before, with the values that were read up to the
failure written among the attributes, and nothing else
(`Component.readAttributes_eq_error_iff`). None of the moves that finish a record has begun.

The way through a body is known from `Component.Reads`: reading goes on behind the values as if it
had started there with a record that holds them (`Component.collect_of_reads`). What remains to be
said is how it can stop, and `Component.Breaks` lists the ways. The last of them is the only one
that looks at the attributes, and it fails before it has changed any
(`Component.finish_eq_error_iff`).
-/

namespace NnetText

namespace Component

variable {limits : Limits} {ends : List String} {record after : Component} {c d : Cursor}
  {e : ParseError}

/-- **Reading goes on behind the values** with a record that holds them. -/
theorem collect_of_reads {values : List (Rule × Value)}
    (h : Reads limits ends record.kind record.name c values d) :
    collect limits ends record c = collect limits ends (record.write values) d := by
  generalize hkind : record.kind = kind at h
  generalize hname : record.name = name at h
  induction h generalizing record with
  | none => rfl
  | skip hpull hends hrule _ ih =>
    subst hkind hname
    rw [collect_eq, hpull]
    simp only [if_neg hends, hrule]
    exact ih rfl rfl
  | value hpull hends hrule hread _ ih =>
    subst hkind hname
    rw [collect_eq, hpull]
    simp only [if_neg hends, hrule, hread]
    exact ih rfl rfl

/-- **The ways a body breaks off**, from where its last value has been read: `record` holds the
values, and `d` is where the cursor is left. -/
inductive Breaks (limits : Limits) (ends : List String) (record : Component) (c : Cursor) :
    ParseError → Cursor → Prop
  /-- The input ends. -/
  | ended {d : Cursor} (hpull : c.pull = (none, d)) :
      Breaks limits ends record c (.unexpectedEndOfInput d.position) d
  /-- What stands behind a tag of the kind cannot be read. -/
  | refused {token : String} {rule : Rule} {d f : Cursor} {e : ParseError}
      (hpull : c.pull = (some token, d)) (hends : token ∉ ends)
      (hrule : record.kind.rule? token = some rule)
      (hread : rule.literal.read limits d = (.error e, f)) : Breaks limits ends record c e f
  /-- The body ends, and the statistics of the layer cannot be folded. -/
  | inconsistent {token : String} {d : Cursor} {fault : BatchNorm.Fault}
      (hpull : c.pull = (some token, d)) (hends : token ∈ ends)
      (hkind : record.kind = .batchNorm)
      (hfault : BatchNorm.statistics record.attributes = .error fault) :
      Breaks limits ends record c (.inconsistentAttributes record.name fault.reason) d

/-- **The values of a body that breaks off on the way** have been written in turn. -/
theorem exists_reads_of_collect_error
    (h : collect limits ends record c = (.error e, after, d)) :
    ∃ values f, Reads limits ends record.kind record.name c values f ∧
      after = record.write values ∧ Breaks limits ends after f e d := by
  fun_induction collect limits ends record c with
  | case1 record c f hpull =>
    obtain ⟨rfl, rfl, rfl⟩ : ParseError.unexpectedEndOfInput f.position = e ∧ record = after ∧
        f = d := by simpa using h
    exact ⟨[], c, .none, rfl, .ended hpull⟩
  | case2 record c token f hpull hmem => cases h
  | case3 record c token f hpull hmem hrule ih =>
    obtain ⟨values, g, hreads, hrest⟩ := ih h
    exact ⟨values, g, .skip hpull hmem hrule hreads, hrest⟩
  | case4 record c token f hpull hmem rule hrule fault g hread =>
    obtain ⟨rfl, rfl, rfl⟩ : fault = e ∧ record = after ∧ g = d := by simpa using h
    exact ⟨[], c, .none, rfl, .refused hpull hmem hrule hread⟩
  | case5 record c token f hpull hmem rule hrule value g hread ih =>
    obtain ⟨values, g', hreads, hwrite, hbreaks⟩ := ih h
    exact ⟨(rule, value) :: values, g', .value hpull hmem hrule hread hreads, hwrite, hbreaks⟩

/-- A body that breaks off makes no record, and leaves the one it has come to as it is. -/
theorem Breaks.readAttributes (h : Breaks limits ends record c e d) :
    record.readAttributes limits ends c = (.error e, record, d) := by
  unfold Component.readAttributes
  cases h with
  | ended hpull => rw [collect_eq, hpull]
  | refused hpull hends hrule hread =>
    rw [collect_eq, hpull]
    simp only [if_neg hends, hrule, hread]
  | inconsistent hpull hends hkind hfault =>
    rw [collect_eq, hpull]
    simp only [if_pos hends, finish_eq_error_iff.mpr ⟨hkind, _, hfault, rfl, rfl⟩]

/-- **A body that cannot be read leaves the record as it was**, whatever has been done to it
before, but for the values that were read up to the failure: they have been written among the
attributes in the order in which they were read. -/
theorem readAttributes_eq_error_iff :
    record.readAttributes limits ends c = (.error e, after, d) ↔
      ∃ values f, Reads limits ends record.kind record.name c values f ∧
        after = { record with
          attributes := values.foldl (fun m r => m.insert r.1.key r.2) record.attributes } ∧
        Breaks limits ends after f e d := by
  constructor
  · intro h
    rcases hcollect : collect limits ends record c with ⟨e' | token, collected, f⟩
    · -- the body breaks off on the way
      rw [Component.readAttributes, hcollect] at h
      obtain ⟨rfl, rfl, rfl⟩ : e' = e ∧ collected = after ∧ f = d := by simpa using h
      obtain ⟨values, g, hreads, hwrite, hbreaks⟩ := exists_reads_of_collect_error hcollect
      exact ⟨values, g, hreads, hwrite.trans (write_eq record values), hbreaks⟩
    · -- the body comes to its end, and the record cannot be finished
      obtain ⟨values, g, hreads, hpull, hends, rfl⟩ := exists_reads_of_collect hcollect
      rw [Component.readAttributes, hcollect] at h
      dsimp only at h
      rcases hfinish : (record.write values).finish limits.arithmetic with ⟨fault | ⟨⟩, left⟩
      · rw [hfinish] at h
        obtain ⟨rfl, rfl, rfl⟩ : fault = e ∧ left = after ∧ f = d := by simpa using h
        -- finishing fails before it has changed anything
        obtain ⟨hkind, fault, hfault, rfl, rfl⟩ := finish_eq_error_iff.mp hfinish
        exact ⟨values, g, hreads, write_eq record values,
          .inconsistent hpull hends hkind hfault⟩
      · rw [hfinish] at h
        cases h
  · rintro ⟨values, f, hreads, hafter, hbreaks⟩
    rw [← write_eq] at hafter
    subst hafter
    have hread := hbreaks.readAttributes
    unfold Component.readAttributes at hread ⊢
    rw [collect_of_reads hreads]
    exact hread

end Component

end NnetText
