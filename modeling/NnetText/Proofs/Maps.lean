import Mathlib.Data.List.Nodup
import NnetText.OrderedMap

/-!
# Looking into an ordered map

A map is a list of entries without a repeated key, so that it can be seen in two ways: as a
partial function, by `OrderedMap.get?`, and as a list, by its entries. The two views agree
(`OrderedMap.get?_eq_some_iff`). This file says what writing and removing do in the first view,
whatever the order, and in the second where the order is kept.
-/

namespace NnetText.OrderedMap

variable {κ ν : Type}

theorem ext_entries {m n : OrderedMap κ ν} (h : m.entries = n.entries) : m = n := by
  obtain ⟨entries, hnodup⟩ := m
  obtain rfl : entries = n.entries := h
  rfl

variable [DecidableEq κ] {m : OrderedMap κ ν} {k k' : κ} {v w : ν}

/-- **Looking up a key finds its entry.** -/
theorem get?_eq_some_iff : m.get? k = some v ↔ (k, v) ∈ m.entries := by
  rw [get?, Option.map_eq_some_iff]
  constructor
  · rintro ⟨entry, hfind, rfl⟩
    have hkey : entry.1 = k := by simpa using List.find?_some hfind
    rw [← hkey]
    exact List.mem_of_find?_eq_some hfind
  · intro hmem
    cases hfind : m.entries.find? (fun e => e.1 = k) with
    | none =>
      rw [List.find?_eq_none] at hfind
      exact absurd (decide_eq_true rfl) (hfind (k, v) hmem)
    | some entry =>
      have hkey : entry.1 = k := by simpa using List.find?_some hfind
      have heq : entry = (k, v) :=
        List.inj_on_of_nodup_map m.nodup (List.mem_of_find?_eq_some hfind) hmem hkey
      exact ⟨entry, rfl, by rw [heq]⟩

theorem get?_eq_none_iff : m.get? k = none ↔ k ∉ m.keys := by
  rw [Option.eq_none_iff_forall_ne_some]
  constructor
  · intro h hmem
    obtain ⟨⟨key, value⟩, hentry, rfl⟩ := List.mem_map.mp hmem
    exact h value (get?_eq_some_iff.mpr hentry)
  · intro h value hvalue
    exact h (List.mem_map.mpr ⟨(k, value), get?_eq_some_iff.mp hvalue, rfl⟩)

/-- **A key has one entry at most.** -/
theorem filter_entries_of_get? (h : m.get? k = some v) :
    m.entries.filter (fun e => e.1 = k) = [(k, v)] := by
  obtain ⟨front, behind, heq⟩ := List.append_of_mem (get?_eq_some_iff.mp h)
  have hnodup := m.nodup
  rw [heq, List.map_append, List.map_cons, List.nodup_append, List.nodup_cons] at hnodup
  obtain ⟨-, ⟨hbehind, -⟩, hfront⟩ := hnodup
  have hother {entries : List (κ × ν)} (hk : k ∉ entries.map Prod.fst) :
      entries.filter (fun e => e.1 = k) = [] := by
    rw [List.filter_eq_nil_iff]
    intro entry hentry hkey
    exact hk (List.mem_map.mpr ⟨entry, hentry, by simpa using hkey⟩)
  have hfront' : k ∉ front.map Prod.fst := fun hk => hfront k hk k List.mem_cons_self rfl
  have hself : decide ((k, v).1 = k) = true := decide_eq_true rfl
  rw [heq, List.filter_append, hother hfront', List.filter_cons, if_pos hself, hother hbehind,
    List.nil_append]

theorem mem_keys_iff : k ∈ m.keys ↔ ∃ v, m.get? k = some v := by
  rw [← Option.ne_none_iff_exists', ne_eq, get?_eq_none_iff, not_not]

theorem entries_insert_of_not_mem (h : k ∉ m.keys) (v : ν) :
    (m.insert k v).entries = m.entries ++ [(k, v)] := by
  rw [insert, dif_neg h]

theorem erase_of_not_mem (h : k ∉ m.keys) : m.erase k = m := by
  apply ext_entries
  refine List.filter_eq_self.mpr fun entry hentry => decide_eq_true ?_
  rintro rfl
  exact h (List.mem_map_of_mem hentry)

/-- The entries after a write: the new one, and the old ones under other keys. -/
theorem mem_entries_insert :
    (k', w) ∈ (m.insert k v).entries ↔
      k' = k ∧ w = v ∨ k' ≠ k ∧ (k', w) ∈ m.entries := by
  by_cases hk : k ∈ m.keys
  · rw [insert, dif_pos hk]
    simp only [replaceEntries, List.mem_map]
    constructor
    · rintro ⟨entry, hentry, heq⟩
      split at heq
      · rename_i hkey
        obtain ⟨rfl, rfl⟩ := Prod.mk.inj heq
        exact Or.inl ⟨hkey, rfl⟩
      · rename_i hkey
        subst heq
        exact Or.inr ⟨hkey, hentry⟩
    · rintro (⟨rfl, rfl⟩ | ⟨hne, hentry⟩)
      · obtain ⟨entry, hentry, hkey⟩ := List.mem_map.mp hk
        exact ⟨entry, hentry, by rw [if_pos hkey, hkey]⟩
      · exact ⟨(k', w), hentry, if_neg hne⟩
  · rw [entries_insert_of_not_mem hk, List.mem_append, List.mem_singleton, Prod.mk.injEq]
    constructor
    · rintro (hentry | heq)
      · refine Or.inr ⟨?_, hentry⟩
        rintro rfl
        exact hk (List.mem_map_of_mem hentry)
      · exact Or.inl heq
    · rintro (heq | ⟨-, hentry⟩)
      · exact Or.inr heq
      · exact Or.inl hentry

/-- **A write is seen under its key**, and under no other. -/
theorem get?_insert (m : OrderedMap κ ν) (k k' : κ) (v : ν) :
    (m.insert k v).get? k' = if k' = k then some v else m.get? k' := by
  apply Option.ext
  intro w
  rw [get?_eq_some_iff, mem_entries_insert]
  by_cases hk : k' = k
  · simp [hk, eq_comm]
  · simp [hk, get?_eq_some_iff]

/-- **A removal is seen under its key**, and under no other. -/
theorem get?_erase (m : OrderedMap κ ν) (k k' : κ) :
    (m.erase k).get? k' = if k' = k then none else m.get? k' := by
  apply Option.ext
  intro w
  rw [get?_eq_some_iff, erase, List.mem_filter]
  by_cases hk : k' = k
  · simp [hk]
  · simp [hk, get?_eq_some_iff]

/-- Entries written under new keys come last, in their order. -/
theorem entries_foldl_insert {entries : List (κ × ν)} (hnodup : (entries.map Prod.fst).Nodup)
    (hnew : ∀ entry ∈ entries, entry.1 ∉ m.keys) :
    (entries.foldl (fun m e => m.insert e.1 e.2) m).entries = m.entries ++ entries := by
  induction entries generalizing m with
  | nil => simp
  | cons entry entries ih =>
    rw [List.map_cons, List.nodup_cons] at hnodup
    have hentry : entry.1 ∉ m.keys := hnew entry List.mem_cons_self
    have hkeys : (m.insert entry.1 entry.2).keys = m.keys ++ [entry.1] := by
      rw [keys_insert, if_neg hentry]
    rw [List.foldl_cons, ih hnodup.2, entries_insert_of_not_mem hentry, List.append_assoc]
    · rfl
    · intro later hlater
      rw [hkeys, List.mem_append, List.mem_singleton]
      rintro (hmem | heq)
      · exact hnew later (List.mem_cons_of_mem _ hlater) hmem
      · exact hnodup.1 (heq ▸ List.mem_map_of_mem hlater)

/-- Removing several keys leaves the others as they are. -/
theorem get?_foldl_erase (ks : List κ) (m : OrderedMap κ ν) (k : κ) :
    (ks.foldl erase m).get? k = if k ∈ ks then none else m.get? k := by
  induction ks generalizing m with
  | nil => rfl
  | cons k' ks ih =>
    rw [List.foldl_cons, ih, get?_erase]
    by_cases hk : k = k'
    · simp [hk]
    · simp [hk]

/-- Removing several keys keeps the order of the others. -/
theorem keys_foldl_erase (ks : List κ) (m : OrderedMap κ ν) :
    (ks.foldl erase m).keys = m.keys.filter (fun k => k ∉ ks) := by
  induction ks generalizing m with
  | nil => simp
  | cons k ks ih =>
    rw [List.foldl_cons, ih, keys_erase, List.filter_filter]
    refine List.filter_congr fun k' _ => ?_
    simp [not_or, Bool.and_comm]

end NnetText.OrderedMap
