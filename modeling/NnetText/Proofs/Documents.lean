import NnetText.Conversion
import NnetText.Proofs.Finishing
import NnetText.Proofs.Numerals

/-!
# What a document shows

The document of a conversion shows all of it but the digits of its numbers. To say so without a
look at how the document is made, `Conversion.ShownBy` looks its members up by their keys and
compares what it finds with the conversion: every component with its fields, its attributes and its
constants in their order, and two counts that have to fit what is found. Of a floating-point number
it asks for a numeral, or for null if the number is not finite (`Binary.ShownBy`).

`Conversion.faithful` says that this holds of what is read back from the text, for every
conversion: names are strings and are escaped, whatever is in them. Looking members up is no
trouble as long as no key is repeated. The keys of fields are all different, as are the names of
attributes, and maps have no key twice (`OrderedMap.nodup`); documents that are put together this
way are *neat* (`Json.Neat`), and neat ones are read back.
-/

namespace NnetText

/-! ### Numbers -/

/-- A word stands for a number unless all bits of its exponent are set. -/
theorem Binary.isFinite_iff {f : Format} (x : Binary f) :
    x.isFinite = true ↔ ∃ negative m e, x.meaning = .finite negative m e := by
  have hfinite : x.isFinite = true ↔
      x.magnitude / twoPow f.fractionBits < twoPow f.exponentBits - 1 := by
    rw [isFinite, decide_eq_true_iff, Format.infinityBits, Nat.div_lt_iff_lt_mul (twoPow_pos _)]
  have hbound : x.magnitude / twoPow f.fractionBits < twoPow f.exponentBits := by
    have hwidth : f.width - 1 = f.exponentBits + f.fractionBits := by
      rw [Format.width]
      omega
    have hpower : twoPow (f.width - 1) = twoPow f.exponentBits * twoPow f.fractionBits := by
      rw [hwidth]
      exact Nat.pow_add 2 _ _
    rw [Nat.div_lt_iff_lt_mul (twoPow_pos _), ← hpower]
    exact Nat.mod_lt _ (twoPow_pos _)
  rw [hfinite, meaning]
  split
  · split <;> simp [*]
  · have hless : x.magnitude / twoPow f.fractionBits < twoPow f.exponentBits - 1 := by omega
    split <;> simp [hless]

/-- **A floating-point number is shown** by a numeral if it is finite, and by null if not. -/
inductive Binary.ShownBy {f : Format} (x : Binary f) : Json → Prop
  | numeral {text : String} (finite : x.isFinite = true) (h : Json.IsNumeral text) :
      ShownBy x (.numeral text)
  | null (h : x.isFinite = false) : ShownBy x .null

/-! ### Neat documents -/

namespace Json

/-- **A neat document**: its numerals are read as themselves, and no object in it has a repeated
key. -/
structure Neat (j : Json) : Prop where
  sound : Sound j
  nodup : ∀ ms, IsPart (.object ms) j → (ms.map Prod.fst).Nodup

theorem neat_null : Neat .null := ⟨fun _ h => (by cases h), fun _ h => (by cases h)⟩

theorem neat_bool (b : Bool) : Neat (.bool b) := ⟨fun _ h => (by cases h), fun _ h => (by cases h)⟩

theorem neat_int (n : Int) : Neat (.int n) := ⟨fun _ h => (by cases h), fun _ h => (by cases h)⟩

theorem neat_string (s : String) : Neat (.string s) :=
  ⟨fun _ h => (by cases h), fun _ h => (by cases h)⟩

theorem neat_numeral {text : String} (h : IsNumeral text) : Neat (.numeral text) := by
  refine ⟨fun _ hpart => ?_, fun _ hpart => ?_⟩
  · cases hpart
    exact h
  · cases hpart

theorem neat_array {js : List Json} (h : ∀ j ∈ js, Neat j) : Neat (.array js) := by
  refine ⟨fun text hpart => ?_, fun ms hpart => ?_⟩
  · cases hpart with
    | element hj hpart => exact (h _ hj).sound text hpart
  · cases hpart with
    | element hj hpart => exact (h _ hj).nodup ms hpart

theorem neat_map {α : Type} {f : α → Json} (h : ∀ x, Neat (f x)) (xs : List α) :
    Neat (.array (xs.map f)) := by
  refine neat_array fun j hj => ?_
  obtain ⟨x, -, rfl⟩ := List.mem_map.mp hj
  exact h x

theorem neat_object {ms : List (String × Json)} (hkeys : (ms.map Prod.fst).Nodup)
    (h : ∀ m ∈ ms, Neat m.2) : Neat (.object ms) := by
  refine ⟨fun text hpart => ?_, fun ms hpart => ?_⟩
  · cases hpart with
    | member hm hpart => exact (h _ hm).sound text hpart
  · cases hpart with
    | self => exact hkeys
    | member hm hpart => exact (h _ hm).nodup ms hpart

theorem shownBy_ofBinary {l : Layout} (hleast : l.leastPlain ≤ 0) (hgreatest : 0 ≤ l.greatestPlain)
    {f : Format} (x : Binary f) : x.ShownBy (ofBinary l x) := by
  unfold ofBinary
  split
  · rename_i hmeaning
    exact .numeral (x.isFinite_iff.mpr ⟨_, _, _, hmeaning⟩)
      (Layout.isNumeral_finite hleast hgreatest _ _ _ _)
  · rename_i hmeaning
    refine .null (Bool.eq_false_iff.mpr fun hfinite => ?_)
    obtain ⟨negative, m, e, h⟩ := x.isFinite_iff.mp hfinite
    exact hmeaning negative m e h

theorem shownBy_ofSingle (x : Single) : x.ShownBy (ofSingle x) :=
  shownBy_ofBinary (by decide) (by decide) x

theorem shownBy_ofDouble (x : Double) : x.ShownBy (ofDouble x) :=
  shownBy_ofBinary (by decide) (by decide) x

theorem neat_of_shownBy {f : Format} {x : Binary f} {j : Json} (h : x.ShownBy j) : Neat j := by
  cases h with
  | numeral _ hnumeral => exact neat_numeral hnumeral
  | null => exact neat_null

theorem neat_ofSingle (x : Single) : Neat (ofSingle x) := neat_of_shownBy (shownBy_ofSingle x)

/-- The member of an object at a key. -/
def member? (key : String) : Json → Option Json
  | .object ms => ms.lookup key
  | _ => none

end Json

open Json

/-! ### Neat parts -/

theorem Value.neat_json (v : Value) : Neat v.json := by
  cases v with
  | bool b => exact neat_bool b
  | int n => exact neat_int n
  | float x => exact neat_of_shownBy (shownBy_ofDouble x)
  | ints ns => exact neat_map neat_int ns
  | floats xs => exact neat_map neat_ofSingle xs
  | matrix m =>
    refine neat_object (by simp) ?_
    simp only [List.forall_mem_cons]
    exact ⟨neat_int _, neat_int _, neat_map neat_ofSingle _, fun _ h => (List.not_mem_nil h).elim⟩

theorem Tensor.neat_json (t : Tensor) : Neat t.json := by
  refine neat_object (by simp) ?_
  simp only [List.forall_mem_cons]
  exact ⟨neat_map (fun n => neat_int (n : Nat)) _, neat_map neat_ofSingle _,
    fun _ h => (List.not_mem_nil h).elim⟩

theorem Component.neat_json (c : Component) : Neat c.json := by
  have hdim : Neat ((c.dim.map Json.int).getD .null) := by
    cases c.dim with
    | none => exact neat_null
    | some n => exact neat_int n
  have hattributes :
      Neat (.object (c.attributes.entries.map (fun e => (e.1.name, e.2.json)))) := by
    refine neat_object ?_ ?_
    · have hnames : ((c.attributes.entries.map Prod.fst).map AttributeKey.name).Nodup :=
        c.attributes.nodup.map fun _ _ => AttributeKey.name_injective
      rwa [List.map_map] at hnames ⊢
    · intro m hm
      obtain ⟨e, -, rfl⟩ := List.mem_map.mp hm
      exact e.2.neat_json
  have hconstants : Neat (.object (c.constants.entries.map (fun e => (e.1, e.2.json)))) := by
    refine neat_object ?_ ?_
    · rw [List.map_map]
      exact c.constants.nodup
    · intro m hm
      obtain ⟨e, -, rfl⟩ := List.mem_map.mp hm
      exact e.2.neat_json
  refine neat_object (by simp) ?_
  simp only [List.forall_mem_cons]
  exact ⟨neat_int _, neat_string _, neat_string _, neat_string _, neat_map neat_string _, hdim,
    hattributes, hconstants, fun _ h => (List.not_mem_nil h).elim⟩

theorem Conversion.neat_json (c : Conversion) : Neat c.json := by
  have hsource : Neat ((c.file.map (fun f => Json.string f.path)).getD .null) := by
    cases c.file with
    | none => exact neat_null
    | some f => exact neat_string f.path
  refine neat_object (by simp) ?_
  simp only [List.forall_mem_cons]
  exact ⟨hsource, neat_int _, neat_int _, neat_map Component.neat_json _,
    fun _ h => (List.not_mem_nil h).elim⟩

/-! ### What is shown -/

/-- **Numbers are shown** one by one. -/
def ShowNumbers (xs : List Single) (js : List Json) : Prop := List.Forall₂ Binary.ShownBy xs js

/-- **A value is shown** as what it is: truth values, integers and vectors of integers exactly, the
others with their shape and number by number. -/
def Value.ShownBy (j : Json) : Value → Prop
  | .bool b => j = .bool b
  | .int n => j = .int n
  | .float x => x.ShownBy j
  | .ints ns => j = .array (ns.map .int)
  | .floats xs => ∃ js, j = .array js ∧ ShowNumbers xs js
  | .matrix m => j.member? "rows" = some (.int m.rows) ∧ j.member? "cols" = some (.int m.cols) ∧
      ∃ js, j.member? "data" = some (.array js) ∧ ShowNumbers m.data js

/-- **A tensor is shown** by its shape and its numbers. -/
structure Tensor.ShownBy (t : Tensor) (j : Json) : Prop where
  shape : j.member? "shape" = some (.array (t.shape.map (fun n : Nat => Json.int n)))
  data : ∃ js, j.member? "data" = some (.array js) ∧ ShowNumbers t.data js

/-- **A component is shown** by an object with all its fields. The kind is told apart from every
other; attributes and constants are shown under their names, in their order. -/
structure Component.ShownBy (c : Component) (j : Json) : Prop where
  id : j.member? "id" = some (.int c.id)
  name : j.member? "name" = some (.string c.name)
  kind : ∀ kind : Kind, j.member? "kind" = some (.string kind.name) ↔ kind = c.kind
  typeTag : j.member? "type_tag" = some (.string c.typeTag)
  inputs : j.member? "inputs" = some (.array (c.inputs.map .string))
  dim : j.member? "dim" = some (match c.dim with | some n => .int n | none => .null)
  attributes : ∃ ms, j.member? "attributes" = some (.object ms) ∧
    List.Forall₂ (fun e m => m.1 = e.1.name ∧ e.2.ShownBy m.2) c.attributes.entries ms
  constants : ∃ ms, j.member? "constants" = some (.object ms) ∧
    List.Forall₂ (fun e m => m.1 = e.1 ∧ e.2.ShownBy m.2) c.constants.entries ms

/-- The constants that the document of a component shows. -/
def Json.constants (j : Json) : List (String × Json) :=
  match j.member? "constants" with
  | some (.object ms) => ms
  | _ => []

/-- **A conversion is shown** by the documents of its components, in their order, and by two counts
that fit them. -/
def Conversion.ShownBy (c : Conversion) (j : Json) : Prop :=
  ∃ parts, j.member? "components" = some (.array parts) ∧
    List.Forall₂ Component.ShownBy c.components parts ∧
    j.member? "component_count" = some (.int parts.length) ∧
    j.member? "constant_count" = some (.int (parts.flatMap Json.constants).length)

theorem showNumbers_ofSingle (xs : List Single) : ShowNumbers xs (xs.map ofSingle) := by
  rw [ShowNumbers, List.forall₂_map_right_iff, List.forall₂_same]
  exact fun x _ => shownBy_ofSingle x

theorem Value.shownBy_json (v : Value) : v.ShownBy v.json := by
  cases v with
  | bool b => rfl
  | int n => rfl
  | float x => exact shownBy_ofDouble x
  | ints ns => rfl
  | floats xs => exact ⟨_, rfl, showNumbers_ofSingle xs⟩
  | matrix m => exact ⟨rfl, rfl, _, rfl, showNumbers_ofSingle m.data⟩

theorem Tensor.shownBy_json (t : Tensor) : t.ShownBy t.json :=
  ⟨rfl, _, rfl, showNumbers_ofSingle t.data⟩

theorem Kind.name_injective {k k' : Kind} (h : k.name = k'.name) : k = k' := by
  cases k <;> cases k' <;> first | rfl | exact absurd h (by decide)

theorem Component.shownBy_json (c : Component) : c.ShownBy c.json where
  id := rfl
  name := rfl
  kind := by
    intro kind
    have hkind : c.json.member? "kind" = some (.string c.kind.name) := rfl
    rw [hkind, Option.some.injEq, Json.string.injEq]
    exact ⟨fun h => (Kind.name_injective h).symm, fun h => congrArg Kind.name h.symm⟩
  typeTag := rfl
  inputs := rfl
  dim := by
    have hdim : c.json.member? "dim" = some ((c.dim.map Json.int).getD .null) := rfl
    rw [hdim]
    cases c.dim <;> rfl
  attributes := by
    refine ⟨_, rfl, ?_⟩
    rw [List.forall₂_map_right_iff, List.forall₂_same]
    exact fun e _ => ⟨rfl, e.2.shownBy_json⟩
  constants := by
    refine ⟨_, rfl, ?_⟩
    rw [List.forall₂_map_right_iff, List.forall₂_same]
    exact fun e _ => ⟨rfl, e.2.shownBy_json⟩

theorem Component.length_constants_json (c : Component) :
    c.json.constants.length = c.constants.entries.length :=
  List.length_map _

theorem Conversion.shownBy_json (c : Conversion) : c.ShownBy c.json := by
  refine ⟨_, rfl, ?_, ?_, ?_⟩
  · rw [List.forall₂_map_right_iff, List.forall₂_same]
    exact fun x _ => x.shownBy_json
  · rw [List.length_map]
    rfl
  · have hcount : c.constantCount =
        ((c.components.map Component.json).flatMap Json.constants).length := by
      rw [constantCount, List.length_flatMap, List.length_flatMap, List.map_map]
      exact congrArg List.sum (List.map_congr_left fun x _ => x.length_constants_json.symm)
    rw [← hcount]
    rfl

/-- **The document of a conversion is faithful.** It is read back as a document without a repeated
key, which shows the components of the conversion in their order, each with its fields, its
attributes and its constants, and two counts that fit them. -/
theorem Conversion.faithful (c : Conversion) :
    ∃ j, Json.decode c.json.pretty = some j ∧
      (∀ ms, IsPart (.object ms) j → (ms.map Prod.fst).Nodup) ∧ c.ShownBy j :=
  ⟨c.json, Json.decode_pretty c.neat_json.sound, c.neat_json.nodup, c.shownBy_json⟩

end NnetText
