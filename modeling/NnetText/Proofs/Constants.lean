import NnetText.Proofs.Naming

/-!
# The constants of all components

The components of a section are put together into one graph, and there the constants of all of them
stand side by side. This file says that they do not get into each other's way, as far as the names
of the components allow: components of different names have no constant's name in common, so that
the constants of a section are told apart by their names if its components are
(`Section.constants_of_read`).

It rests on two facts. The name of a constant tells the component and the weight it comes from
(`Component.eq_of_constantName`). And a component that has been read is wired to its own constants
and to nothing else (`Section.inputs_of_declaration`), so that counting the constants and counting
the inputs comes to the same.
-/

namespace NnetText

/-! ### Records that have just been declared -/

namespace Component

/-- **A record that nothing has been read into.** -/
structure Fresh (c : Component) : Prop where
  dim : c.dim = none
  attributes : c.attributes = .empty
  constants : c.constants = .empty

theorem fresh_of_declare {id : Nat} {name tag : String} {inputs : List String} {place : Position}
    {record : Component} (h : declare id name tag inputs place = .ok record) : record.Fresh := by
  obtain ⟨-, hdim, hattributes, hconstants⟩ := kind_of_declare h
  exact ⟨hdim, hattributes, hconstants⟩

/-- Values of a body fit the table of a record that nothing has been read into. -/
theorem Fresh.fits_write {limits : Limits} {record : Component} {values : List (Rule × Value)}
    (h : record.Fresh)
    (hvalues : ∀ r ∈ values, r.1 ∈ record.kind.table ∧ r.1.literal.Yields limits r.2) :
    (record.write values).Fits limits := by
  refine Component.fits_write ?_ hvalues
  intro key value hvalue
  rw [h.attributes] at hvalue
  cases hvalue

/-- **A body that is written into a fresh record and finished** leaves it settled. -/
theorem Fresh.exists_settles {A : Arithmetic Single} {limits : Limits}
    {record finished : Component} {values : List (Rule × Value)} (h : record.Fresh)
    (hvalues : ∀ r ∈ values, r.1 ∈ record.kind.table ∧ r.1.literal.Yields limits r.2)
    (hfinish : (record.write values).finish A = (.ok (), finished)) :
    ∃ a, (record.write values).adjust A = (.ok (), a) ∧ a.inputs = record.inputs ∧
      a.Settles finished := by
  obtain ⟨attributes, hwrite⟩ := exists_attributes_write record values
  have hdim : (record.write values).dim = none := by rw [hwrite]; exact h.dim
  have hconstants : (record.write values).constants = .empty := by rw [hwrite]; exact h.constants
  have hinputs : (record.write values).inputs = record.inputs := by rw [hwrite]
  obtain ⟨a, hadjust, -, hinputs', hsettles⟩ :=
    finish_cases (h.fits_write hvalues) hdim hconstants hfinish
  exact ⟨a, hadjust, hinputs'.trans hinputs, hsettles⟩

/-- **The inputs of a record that has been read** are those it was declared with, and then its
constants. -/
theorem Fresh.inputs_of_readAttributes {limits : Limits} {ends : List String}
    {record finished : Component} {c d : Cursor} {token : String} (h : record.Fresh)
    (hread : record.readAttributes limits ends c = (.ok token, finished, d)) :
    finished.inputs = record.inputs ++ finished.constants.keys := by
  cases BodyOutcome.of_eq hread with
  | finished body finish =>
    obtain ⟨values, e, hreads, -, -, rfl⟩ := exists_reads_of_collect body
    obtain ⟨a, -, hinputs, hsettles⟩ := h.exists_settles (yields_of_reads hreads) finish
    rw [hsettles.inputs, hinputs]

end Component

/-! ### Sections -/

namespace Section

variable {limits : Limits} {cursor : Cursor} {components : List Component}

/-- **A component that is declared in a text is wired to its constants.** -/
theorem inputs_of_declaration {id : Nat} {c d : Cursor} {component : Component} {next : Bool}
    (h : declaration limits id c = (.ok (component, next), d)) :
    component.inputs = component.constants.keys := by
  cases DeclarationOutcome.of_eq h with
  | complete _ _ hdeclare hread =>
    rw [(Component.fresh_of_declare hdeclare).inputs_of_readAttributes hread,
      Component.inputs_of_declare hdeclare, List.nil_append]

/-- Components of different names have no constant's name in common. -/
theorem disjoint_constants_of_read (h : (read limits cursor).1 = .ok components) {c d : Component}
    (hc : c ∈ components) (hd : d ∈ components) (hname : c.name ≠ d.name) :
    c.constants.keys.Disjoint d.constants.keys := by
  intro x hx hx'
  have howns := owns_of_read h
  exact hname ((howns c hc).name_eq (howns d hd) hx hx').symm

/-- Where no name is used twice, the constants of all components have different names. -/
theorem nodup_constants_of_read (h : (read limits cursor).1 = .ok components)
    (hnodup : (components.map Component.name).Nodup) :
    (components.flatMap fun c => c.constants.keys).Nodup := by
  rw [List.nodup_flatMap]
  refine ⟨fun c _ => c.constants.nodup, ?_⟩
  refine (List.pairwise_map.mp hnodup).imp_of_mem ?_
  intro c d hc hd hname
  exact disjoint_constants_of_read h hc hd hname

/-- There are as many constants as names of constants. -/
theorem length_flatMap_keys (components : List Component) (file : Option FileInfo) :
    (components.flatMap fun c => c.constants.keys).length =
      Conversion.constantCount ⟨components, file⟩ := by
  have hkeys : (components.flatMap fun c => c.constants.keys) =
      (components.flatMap fun c => c.constants.entries).map Prod.fst := by
    rw [List.map_flatMap]
    rfl
  rw [hkeys, List.length_map]
  rfl

/-- **The constants of a section.** The name of a constant determines the name of its component and
the key of its weight, whatever the names are; so components of different names have no constant's
name in common. If the names of the components are pairwise distinct, the names of all their
constants are, and there are as many of them as constants. There are as many constants as inputs,
taken over all components. -/
theorem constants_of_read (h : (read limits cursor).1 = .ok components) :
    (∀ (name name' : String) (k k' : AttributeKey), k ∈ AttributeKey.promoted →
      k' ∈ AttributeKey.promoted →
      Component.constantName name k = Component.constantName name' k' → name = name' ∧ k = k') ∧
    (∀ c ∈ components, ∀ d ∈ components, c.name ≠ d.name →
      c.constants.keys.Disjoint d.constants.keys) ∧
    ∀ file,
      ((components.map Component.name).Nodup →
        (components.flatMap fun c => c.constants.keys).Nodup ∧
          (components.flatMap fun c => c.constants.keys).length =
            Conversion.constantCount ⟨components, file⟩) ∧
      Conversion.constantCount ⟨components, file⟩ =
        (components.flatMap Component.inputs).length := by
  refine ⟨fun name name' k k' hk hk' heq => Component.eq_of_constantName hk hk' heq, ?_, ?_⟩
  · intro c hc d hd hname
    exact disjoint_constants_of_read h hc hd hname
  · intro file
    refine ⟨fun hnodup => ⟨nodup_constants_of_read h hnodup, length_flatMap_keys _ _⟩, ?_⟩
    have hinputs : components.flatMap Component.inputs =
        components.flatMap fun c => c.constants.keys :=
      List.flatMap_congr (forall_of_read inputs_of_declaration h)
    rw [hinputs, length_flatMap_keys]

/-- A normalization layer, and a layer named like the beginning of one of its constants. -/
def nestedStatistics : List Char :=
  "<ComponentName> a <BatchNormComponent> <Epsilon> 1 <TargetRms> 1\n".toList ++
    "<StatsMean> [ ] <StatsVar> [ ] </BatchNormComponent>\n".toList ++
    "<ComponentName> a_stats <AffineComponent> <BiasParams> [ 1 ] </AffineComponent>\n".toList

theorem constants_of_read_nestedStatistics :
    ∃ components, (read .standard (.ofText nestedStatistics)).1 = .ok components ∧
      components.map Component.name = ["a", "a_stats"] ∧
      (components.flatMap fun c => c.constants.keys) =
        ["a_stats_mean", "a_stats_var", "a_stats_bias"] ∧
      (components.flatMap fun c => c.constants.keys).Nodup ∧
      Conversion.constantCount ⟨components, none⟩ = 3 ∧
      (components.flatMap Component.inputs).length = 3 := by
  have hmap : (read .standard (.ofText nestedStatistics)).1.map
      (List.map fun c => (c.name, c.constants.keys)) =
      .ok [("a", ["a_stats_mean", "a_stats_var"]), ("a_stats", ["a_stats_bias"])] := by
    decide +kernel
  obtain ⟨components, hread, hpairs⟩ := exists_of_map_eq_ok hmap
  have hnames : components.map Component.name = ["a", "a_stats"] := by
    have := congrArg (List.map Prod.fst) hpairs
    rwa [List.map_map] at this
  have hkeys : (components.flatMap fun c => c.constants.keys) =
      ["a_stats_mean", "a_stats_var", "a_stats_bias"] := by
    have := congrArg (List.flatMap Prod.snd) hpairs
    rwa [List.flatMap_map] at this
  obtain ⟨-, -, hcounts⟩ := constants_of_read hread
  obtain ⟨hdistinct, hinputs⟩ := hcounts none
  obtain ⟨hnodup, hlength⟩ := hdistinct (by rw [hnames]; decide)
  have hcount : Conversion.constantCount ⟨components, none⟩ = 3 := by
    rw [← hlength, hkeys]
    rfl
  exact ⟨components, hread, hnames, hkeys, hnodup, hcount, hinputs.symm.trans hcount⟩

end Section

end NnetText
