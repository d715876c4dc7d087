/-!
# Maps that remember their order

Attributes, constants and the context of an event are listed in the order in which their keys
first appeared. A map is therefore a list of entries without a repeated key; writing to a key
that is already there changes its value and keeps its place.
-/

namespace NnetText

/-- A map as the list of its entries, oldest key first. -/
structure OrderedMap (κ ν : Type) where
  entries : List (κ × ν)
  nodup : (entries.map Prod.fst).Nodup
deriving DecidableEq, Repr

namespace OrderedMap

variable {κ ν : Type}

/-- The map without entries. -/
def empty : OrderedMap κ ν := ⟨[], List.nodup_nil⟩

instance : Inhabited (OrderedMap κ ν) := ⟨empty⟩

/-- The keys in their order. -/
def keys (m : OrderedMap κ ν) : List κ := m.entries.map Prod.fst

/-- The values in the order of their keys. -/
def values (m : OrderedMap κ ν) : List ν := m.entries.map Prod.snd

/-- The number of entries. -/
def size (m : OrderedMap κ ν) : Nat := m.entries.length

/-- Whether there is no entry. -/
def isEmpty (m : OrderedMap κ ν) : Bool := m.entries.isEmpty

variable [DecidableEq κ]

/-- The value of a key. -/
def get? (m : OrderedMap κ ν) (k : κ) : Option ν :=
  (m.entries.find? (fun e => e.1 = k)).map Prod.snd

/-- The entries with the value at `k` replaced. -/
def replaceEntries (k : κ) (v : ν) (entries : List (κ × ν)) : List (κ × ν) :=
  entries.map (fun e => if e.1 = k then (e.1, v) else e)

/-- Replacing a value touches no key. -/
theorem map_fst_replaceEntries (k : κ) (v : ν) (entries : List (κ × ν)) :
    (replaceEntries k v entries).map Prod.fst = entries.map Prod.fst := by
  simp only [replaceEntries, List.map_map]
  apply List.map_congr_left
  intro e _
  simp only [Function.comp]
  split <;> rfl

/-- **Writes a value.** A new key comes last; a key that is there keeps its place. -/
def insert (m : OrderedMap κ ν) (k : κ) (v : ν) : OrderedMap κ ν :=
  if h : k ∈ m.keys then
    ⟨replaceEntries k v m.entries, by rw [map_fst_replaceEntries]; exact m.nodup⟩
  else
    ⟨m.entries ++ [(k, v)], by
      rw [List.map_append, List.nodup_append]
      refine ⟨m.nodup, by simp, ?_⟩
      rintro a ha b hb rfl
      simp only [List.map_cons, List.map_nil, List.mem_singleton] at hb
      exact h (hb ▸ ha)⟩

/-- The map without a key; the others keep their order. -/
def erase (m : OrderedMap κ ν) (k : κ) : OrderedMap κ ν :=
  ⟨m.entries.filter (fun e => e.1 ≠ k), m.nodup.sublist (List.filter_sublist.map _)⟩

/-- The map made by writing a list of entries in turn. -/
def ofList (entries : List (κ × ν)) : OrderedMap κ ν :=
  entries.foldl (fun m e => m.insert e.1 e.2) empty

/-- The keys after a write. -/
theorem keys_insert (m : OrderedMap κ ν) (k : κ) (v : ν) :
    (m.insert k v).keys = if k ∈ m.keys then m.keys else m.keys ++ [k] := by
  unfold insert
  split
  · exact map_fst_replaceEntries k v m.entries
  · simp [keys]

/-- The keys after a removal. -/
theorem keys_erase (m : OrderedMap κ ν) (k : κ) :
    (m.erase k).keys = m.keys.filter (fun k' => k' ≠ k) := by
  simp [erase, keys, List.filter_map, Function.comp_def]

end OrderedMap

end NnetText
