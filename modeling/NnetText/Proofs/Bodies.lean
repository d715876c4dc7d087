import NnetText.Proofs.Consumption
import NnetText.Proofs.Maps

/-!
# What the body of a declaration writes

The body of a declaration is a loop that may run for any number of rounds: tags come in any order
and more than once, two tags may share a key, and whatever is no tag is passed over. What it has
done to the record is nevertheless simple to say. `Component.Reads` lists the values read on the
way, each with the rule it was read by, and the record is the old one with these values written
in turn (`Component.exists_reads_of_collect`).

Each value has the form its rule asks for and no more elements than allowed
(`Literal.yields_of_read`), and so every attribute of the record fits the table of its kind
(`Component.fits_write`). This is what finishing the record relies on.
-/

namespace NnetText

/-! ### The size of a literal -/

namespace Bracketed

/-- A vector has no more elements than allowed. -/
theorem length_le_of_elements {α : Type} {limit : Nat}
    {judge : String → Position → Except ParseError α} {start : Position} {found xs : List α}
    {c d : Cursor} (hfound : found.length ≤ limit)
    (h : elements limit judge start found c = (.ok xs, d)) : xs.length ≤ limit := by
  fun_induction elements limit judge start found c with
  | case1 found c e he => cases h
  | case2 found c e he =>
    obtain ⟨rfl, -⟩ : found.reverse = xs ∧ e = d := by simpa using h
    rwa [List.length_reverse]
  | case3 found c token e he hne hlimit => cases h
  | case4 found c token e he hne hlimit fault hfault => cases h
  | case5 found c token e he hne hlimit x hx ih => exact ih (Nat.lt_of_not_le hlimit) h

theorem length_le_of_vector {α : Type} {limits : Limits}
    {judge : String → Position → Except ParseError α} {xs : List α} {c d : Cursor}
    (h : vector limits judge c = (.ok xs, d)) : xs.length ≤ limits.tensorElements := by
  unfold vector at h
  split at h
  · cases h
  · exact length_le_of_elements (Nat.zero_le _) h

namespace RowsFound

/-- The count of a state is the number of its elements. -/
def Counted (r : RowsFound) : Prop := r.rows.flatten.length + r.current.length = r.count

theorem counted_none : RowsFound.none.Counted := rfl

theorem Counted.push {r : RowsFound} (h : r.Counted) (x : Single) : (r.push x).Counted := by
  simp only [Counted, RowsFound.push, List.length_cons] at h ⊢
  omega

theorem Counted.endRow {r : RowsFound} (h : r.Counted) : r.endRow.Counted := by
  unfold RowsFound.endRow
  split
  · exact h
  · simp only [Counted, List.flatten_cons, List.length_append, List.length_reverse,
      List.length_nil] at h ⊢
    omega

/-- Nothing is left in the current row once it has ended. -/
theorem current_endRow (r : RowsFound) : r.endRow.current = [] := by
  unfold RowsFound.endRow
  split
  · rename_i h
    exact List.isEmpty_iff.mp h
  · rfl

theorem count_endRow (r : RowsFound) : r.endRow.count = r.count := by
  unfold RowsFound.endRow
  split <;> rfl

theorem Counted.length_toList {r : RowsFound} (h : r.Counted) :
    r.toList.flatten.length = r.count := by
  have hend := h.endRow
  rw [Counted, current_endRow, count_endRow, List.length_nil, Nat.add_zero] at hend
  rw [toList, (List.reverse_perm r.endRow.rows).flatten.length_eq, hend]

end RowsFound

theorem length_data_of_ofRows {α : Type} {rows : List (List α)} {m : Matrix α}
    (h : Matrix.ofRows rows = .ok m) : m.data.length = rows.flatten.length := by
  unfold Matrix.ofRows at h
  split at h
  · cases h
  · obtain rfl := Except.ok.inj h
    rfl

/-- A matrix has no more entries than were counted. -/
theorem length_data_of_finish {found : RowsFound} {place : Position} {m : Matrix Single}
    (hcount : found.Counted) (h : finish found place = .ok m) : m.data.length = found.count := by
  unfold finish at h
  split at h
  · rename_i n hn
    obtain rfl := Except.ok.inj h
    rw [← hcount.length_toList, ← length_data_of_ofRows hn, n.transpose.length_data, n.length_data]
    exact Nat.mul_comm _ _
  · cases h

theorem length_le_of_rows {limit : Nat} {start : Position} {found : RowsFound} {c d : Cursor}
    {m : Matrix Single} (hcount : found.Counted) (hfound : found.count ≤ limit)
    (h : rows limit start found c = (.ok m, d)) : m.data.length ≤ limit := by
  fun_induction rows limit start found c with
  | case1 found c c' hc c'' hc' ih =>
    exact ih hcount.endRow (by rwa [RowsFound.count_endRow]) h
  | case2 found c c' hc c'' hc' => cases h
  | case3 found c c' hc =>
    rw [length_data_of_finish hcount (congrArg Prod.fst h)]
    exact hfound
  | case4 found c token c' hc hne hlimit => cases h
  | case5 found c token c' hc hne hlimit e he => cases h
  | case6 found c token c' hc hne hlimit x hx c'' hc' ih =>
    refine ih (hcount.push x).endRow ?_ h
    rw [RowsFound.count_endRow]
    exact Nat.lt_of_not_le hlimit
  | case7 found c token c' hc hne hlimit x hx c'' hc' ih =>
    exact ih (hcount.push x) (Nat.lt_of_not_le hlimit) h

theorem length_le_of_matrix {limits : Limits} {m : Matrix Single} {c d : Cursor}
    (h : matrix limits c = (.ok m, d)) : m.data.length ≤ limits.tensorElements := by
  unfold matrix at h
  split at h
  · cases h
  · exact length_le_of_rows RowsFound.counted_none (Nat.zero_le _) h

end Bracketed

namespace Literal

/-- **A value of the form of a literal**, with no more elements than allowed. -/
def Yields (limits : Limits) : Literal → Value → Prop
  | bool, .bool _ | int, .int _ | float, .float _ => True
  | ints, .ints ns => ns.length ≤ limits.tensorElements
  | floats, .floats xs => xs.length ≤ limits.tensorElements
  | matrix, .matrix m => m.data.length ≤ limits.tensorElements
  | _, _ => False

/-- **What is read has the form that was asked for.** -/
theorem yields_of_read {limits : Limits} {l : Literal} {c d : Cursor} {value : Value}
    (h : l.read limits c = (.ok value, d)) : l.Yields limits value := by
  cases l with
  | bool =>
    obtain ⟨x, rfl, -⟩ := eq_ok_of_wrap h
    trivial
  | int =>
    obtain ⟨x, rfl, -⟩ := eq_ok_of_wrap h
    trivial
  | float =>
    obtain ⟨x, rfl, -⟩ := eq_ok_of_wrap h
    trivial
  | ints =>
    obtain ⟨xs, rfl, hxs⟩ := eq_ok_of_wrap h
    exact Bracketed.length_le_of_vector hxs
  | floats =>
    obtain ⟨xs, rfl, hxs⟩ := eq_ok_of_wrap h
    exact Bracketed.length_le_of_vector hxs
  | matrix =>
    obtain ⟨m, rfl, hm⟩ := eq_ok_of_wrap h
    exact Bracketed.length_le_of_matrix hm

end Literal

/-! ### The values of a body -/

namespace Component

/-- **The values read on the way through a body**, in their order, each with the rule it was read
by. Tokens that are no tags of the kind are passed over; a token that ends the body is not gone
past. -/
inductive Reads (limits : Limits) (ends : List String) (kind : Kind) (name : String) :
    Cursor → List (Rule × Value) → Cursor → Prop
  | none {c : Cursor} : Reads limits ends kind name c [] c
  | skip {c d e : Cursor} {token : String} {values : List (Rule × Value)}
      (hpull : c.pull = (some token, d)) (hends : token ∉ ends) (hrule : kind.rule? token = .none)
      (h : Reads limits ends kind name (noteSkipped name token d) values e) :
      Reads limits ends kind name c values e
  | value {c d e f : Cursor} {token : String} {rule : Rule} {value : Value}
      {values : List (Rule × Value)}
      (hpull : c.pull = (some token, d)) (hends : token ∉ ends) (hrule : kind.rule? token = rule)
      (hread : rule.literal.read limits d = (.ok value, e))
      (h : Reads limits ends kind name e values f) :
      Reads limits ends kind name c ((rule, value) :: values) f

/-- The record with values written in turn. -/
def write (c : Component) (values : List (Rule × Value)) : Component :=
  values.foldl (fun c r => c.setAttribute r.1.key r.2) c

theorem write_cons (c : Component) (rule : Rule) (value : Value) (values : List (Rule × Value)) :
    c.write ((rule, value) :: values) = (c.setAttribute rule.key value).write values := rfl

/-- **Writing values changes the attributes**, one after the other, and nothing else. -/
theorem write_eq (c : Component) (values : List (Rule × Value)) :
    c.write values =
      { c with attributes := values.foldl (fun m r => m.insert r.1.key r.2) c.attributes } := by
  induction values generalizing c with
  | nil => rfl
  | cons r values ih => rw [write_cons, ih, List.foldl_cons, setAttribute]

theorem name_write (c : Component) (values : List (Rule × Value)) :
    (c.write values).name = c.name := by rw [write_eq]

theorem kind_write (c : Component) (values : List (Rule × Value)) :
    (c.write values).kind = c.kind := by rw [write_eq]

theorem exists_attributes_write (c : Component) (values : List (Rule × Value)) :
    ∃ attributes, c.write values = { c with attributes } :=
  ⟨_, write_eq c values⟩

/-- **A body that can be read writes its values in turn**, up to a token that ends it. -/
theorem exists_reads_of_collect {limits : Limits} {ends : List String}
    {record collected : Component} {c d : Cursor} {token : String}
    (h : collect limits ends record c = (.ok token, collected, d)) :
    ∃ values e, Reads limits ends record.kind record.name c values e ∧
      e.pull = (some token, d) ∧ token ∈ ends ∧ collected = record.write values := by
  fun_induction collect limits ends record c with
  | case1 record c e he => cases h
  | case2 record c token' e he hmem =>
    obtain ⟨rfl, rfl, rfl⟩ : token' = token ∧ record = collected ∧ e = d := by simpa using h
    exact ⟨[], c, .none, he, hmem, rfl⟩
  | case3 record c token' e he hmem hrule ih =>
    obtain ⟨values, f, hreads, hend⟩ := ih h
    exact ⟨values, f, .skip he hmem hrule hreads, hend⟩
  | case4 record c token' e he hmem rule hrule fault e' hread => cases h
  | case5 record c token' e he hmem rule hrule value e' hread ih =>
    obtain ⟨values, f, hreads, hpull, hends, rfl⟩ := ih h
    exact ⟨(rule, value) :: values, f, .value he hmem hrule hread hreads, hpull, hends, rfl⟩

/-- **Each value comes from a rule of the table** and has the form the rule asks for. -/
theorem yields_of_reads {limits : Limits} {ends : List String} {kind : Kind} {name : String}
    {c d : Cursor} {values : List (Rule × Value)} (h : Reads limits ends kind name c values d) :
    ∀ r ∈ values, r.1 ∈ kind.table ∧ r.1.literal.Yields limits r.2 := by
  induction h with
  | none => simp
  | skip _ _ _ _ ih => exact ih
  | value _ _ hrule hread _ ih =>
    intro r hr
    rcases List.mem_cons.mp hr with rfl | hr
    · exact ⟨List.mem_of_find?_eq_some hrule, Literal.yields_of_read hread⟩
    · exact ih r hr

/-! ### Attributes that fit the table -/

theorem get?_setAttribute (c : Component) (key key' : AttributeKey) (value : Value) :
    (c.setAttribute key value).attributes.get? key' =
      if key' = key then some value else c.attributes.get? key' :=
  OrderedMap.get?_insert c.attributes key key' value

/-- **Every attribute is one that a rule of the table can have written.** -/
def Fits (limits : Limits) (c : Component) : Prop :=
  ∀ key value, c.attributes.get? key = some value →
    ∃ rule ∈ c.kind.table, rule.key = key ∧ rule.literal.Yields limits value

theorem Fits.setAttribute {limits : Limits} {c : Component} (h : c.Fits limits) {rule : Rule}
    {value : Value} (hrule : rule ∈ c.kind.table) (hvalue : rule.literal.Yields limits value) :
    (c.setAttribute rule.key value).Fits limits := by
  intro key value' hget
  rw [get?_setAttribute] at hget
  split at hget
  · rename_i hkey
    obtain rfl := Option.some.inj hget
    exact ⟨rule, hrule, hkey.symm, hvalue⟩
  · exact h key value' hget

theorem fits_write {limits : Limits} {c : Component} {values : List (Rule × Value)}
    (h : c.Fits limits)
    (hvalues : ∀ r ∈ values, r.1 ∈ c.kind.table ∧ r.1.literal.Yields limits r.2) :
    (c.write values).Fits limits := by
  induction values generalizing c with
  | nil => exact h
  | cons r values ih =>
    obtain ⟨hrule, hvalue⟩ := hvalues r List.mem_cons_self
    exact ih (h.setAttribute hrule hvalue) fun r' hr' => hvalues r' (List.mem_cons_of_mem _ hr')

/-- **An attribute is there once it has been read.** -/
theorem mem_keys_write {c : Component} {values : List (Rule × Value)} {key : AttributeKey} :
    key ∈ (c.write values).attributes.keys ↔
      key ∈ c.attributes.keys ∨ ∃ r ∈ values, r.1.key = key := by
  induction values generalizing c with
  | nil => simp [write]
  | cons r values ih =>
    have hstep : key ∈ (c.setAttribute r.1.key r.2).attributes.keys ↔
        key ∈ c.attributes.keys ∨ r.1.key = key := by
      rw [setAttribute, OrderedMap.keys_insert]
      split
      · rename_i hmem
        refine ⟨Or.inl, ?_⟩
        rintro (h | rfl)
        · exact h
        · exact hmem
      · simp [eq_comm]
    rw [write_cons, ih, hstep]
    simp [or_assoc]

end Component

end NnetText
