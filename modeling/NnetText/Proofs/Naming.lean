import NnetText.Conversion
import NnetText.Proofs.FinishedRecords
import NnetText.Proofs.Openers

/-!
# What names tell

A component has a number and a name. The numbers are given out by the reader, and no two are the
same. The names are taken from the text as they stand there, and a text may well use one twice
(`Section.namesakes`), so that a name is as good as the text makes it.

What the reader can vouch for is what it makes of the names. Each reference, be it an input or the
name of a constant, is made from the name of its component and the key of a weight, and both can be
told from it again (`Component.eq_of_constantName`): of the four keys, none is the end of another
with a bar in front. So where names tell components apart, references do (`Section.names_of_read`).
-/

namespace NnetText

/-! ### References -/

namespace Component

/-- No key of a weight, with a bar in front, is the end of another. -/
theorem eq_of_suffix {k k' : AttributeKey} (hk : k ∈ AttributeKey.promoted)
    (hk' : k' ∈ AttributeKey.promoted)
    (h : '_' :: k.name.toList <:+ '_' :: k'.name.toList) : k = k' := by
  have hall : ∀ k ∈ AttributeKey.promoted, ∀ k' ∈ AttributeKey.promoted,
      '_' :: k.name.toList <:+ '_' :: k'.name.toList → k = k' := by decide
  exact hall k hk k' hk' h

/-- **The name of a constant tells the component and the weight.** -/
theorem eq_of_constantName {name name' : String} {k k' : AttributeKey}
    (hk : k ∈ AttributeKey.promoted) (hk' : k' ∈ AttributeKey.promoted)
    (h : constantName name k = constantName name' k') : name = name' ∧ k = k' := by
  have hlist : name.toList ++ '_' :: k.name.toList = name'.toList ++ '_' :: k'.name.toList := by
    have := congrArg String.toList h
    simpa [constantName] using this
  have hkey : k = k' := by
    rcases List.suffix_or_suffix_of_suffix (List.suffix_append name.toList ('_' :: k.name.toList))
        (hlist ▸ List.suffix_append name'.toList ('_' :: k'.name.toList)) with hs | hs
    · exact eq_of_suffix hk hk' hs
    · exact (eq_of_suffix hk' hk hs).symm
  rw [hkey] at hlist
  exact ⟨String.toList_inj.mp (List.append_cancel_right hlist), hkey⟩

/-- **A component's references are its own**: its inputs are its constants, and each of these is
named after one of its weights. -/
structure Owns (c : Component) : Prop where
  inputs : ∀ x, x ∈ c.inputs ↔ x ∈ c.constants.keys
  names : ∀ x ∈ c.constants.keys, ∃ key ∈ AttributeKey.promoted, x = constantName c.name key

section Owns

variable {c d : Component}

/-- A reference that two components share says that they are named alike. -/
theorem Owns.name_eq (hc : c.Owns) (hd : d.Owns) {x : String} (hx : x ∈ c.constants.keys)
    (hx' : x ∈ d.constants.keys) : d.name = c.name := by
  obtain ⟨k, hk, rfl⟩ := hc.names x hx
  obtain ⟨k', hk', heq⟩ := hd.names _ hx'
  exact (eq_of_constantName hk' hk heq.symm).1

/-- A component is made without references. -/
theorem owns_of_none (hinputs : c.inputs = []) (hconstants : c.constants = .empty) : c.Owns := by
  have hkeys : c.constants.keys = [] := by rw [hconstants]; rfl
  refine ⟨fun x => ?_, fun x hx => ?_⟩
  · rw [hinputs, hkeys]
  · rw [hkeys] at hx
    cases hx

/-- What is done to the attributes does not matter. -/
theorem Owns.congr (h : c.Owns) (hname : d.name = c.name) (hinputs : d.inputs = c.inputs)
    (hconstants : d.constants = c.constants) : d.Owns := by
  refine ⟨?_, ?_⟩
  · rw [hinputs, hconstants]
    exact h.inputs
  · rw [hname, hconstants]
    exact h.names

/-- A constant comes with an input, and with a name of the component's own. -/
theorem Owns.publish (h : c.Owns) {key : AttributeKey} (hkey : key ∈ AttributeKey.promoted)
    (attributes : OrderedMap AttributeKey Value) (t : Tensor) :
    Owns { c with
      attributes
      inputs := c.inputs ++ [constantName c.name key]
      constants := c.constants.insert (constantName c.name key) t } := by
  have hmem : ∀ x, x ∈ (c.constants.insert (constantName c.name key) t).keys ↔
      x ∈ c.constants.keys ∨ x = constantName c.name key := by
    intro x
    rw [OrderedMap.keys_insert]
    split
    · rename_i hold
      refine ⟨Or.inl, ?_⟩
      rintro (hx | rfl)
      · exact hx
      · exact hold
    · rw [List.mem_append, List.mem_singleton]
  refine ⟨fun x => ?_, fun x hx => ?_⟩
  · rw [hmem, List.mem_append, List.mem_singleton, h.inputs]
  · rcases (hmem x).mp hx with hx | rfl
    · exact h.names x hx
    · exact ⟨key, hkey, rfl⟩

/-- **A weight that is moved** leaves the component with references of its own. -/
theorem Owns.promoteKey (h : c.Owns) {key : AttributeKey} (hkey : key ∈ AttributeKey.promoted) :
    (c.promoteKey key).Owns := by
  unfold Component.promoteKey
  split
  · exact h
  · dsimp only
    split
    · exact h.congr rfl rfl rfl
    · split
      · exact h.publish hkey _ _
      · exact h.congr rfl rfl rfl

/-- **All weights moved.** -/
theorem Owns.promote (h : c.Owns) : c.promote.Owns := by
  have hrun : ∀ keys : List AttributeKey, (∀ key ∈ keys, key ∈ AttributeKey.promoted) →
      ∀ c : Component, c.Owns → (keys.foldl Component.promoteKey c).Owns := by
    intro keys
    induction keys with
    | nil => exact fun _ c hc => hc
    | cons key keys ih =>
      intro hkeys c hc
      exact ih (fun k hk => hkeys k (List.mem_cons_of_mem _ hk)) _
        (hc.promoteKey (hkeys key List.mem_cons_self))
  exact hrun _ (fun _ hkey => hkey) c h

theorem Owns.finish {A : Arithmetic Single} (h : c.Owns)
    (hfinish : c.finish A = (.ok (), d)) : d.Owns := by
  obtain ⟨a, hadjust, rfl⟩ := finish_eq_ok_iff.mp hfinish
  have ha : a.Owns := by
    rcases adjust_cases hadjust with ⟨-, rfl⟩ | ⟨-, s, -, rfl⟩
    · exact h
    · exact h.congr rfl rfl rfl
  have hlift : a.liftDim.Owns := by
    unfold liftDim
    split
    · exact ha
    · exact ha.congr rfl rfl rfl
  exact hlift.promote

/-- **Reading a body** leaves the record with references of its own. -/
theorem Owns.readAttributes (h : c.Owns) {limits : Limits} {ends : List String} {token : String}
    {e f : Cursor} (hread : c.readAttributes limits ends e = (.ok token, d, f)) : d.Owns := by
  cases BodyOutcome.of_eq hread with
  | finished body finish =>
    obtain ⟨values, -, -, -, -, rfl⟩ := exists_reads_of_collect body
    obtain ⟨attributes, hwrite⟩ := exists_attributes_write c values
    have hcollected : (c.write values).Owns := by
      rw [hwrite]
      exact h.congr rfl rfl rfl
    exact hcollected.finish finish

end Owns

end Component

/-! ### Sections -/

namespace Section

variable {limits : Limits} {text : List Char} {components : List Component}

/-- **A declaration** yields a component with references of its own. -/
theorem owns_of_declaration {id : Nat} {c d : Cursor} {component : Component} {next : Bool}
    (h : declaration limits id c = (.ok (component, next), d)) : component.Owns := by
  cases DeclarationOutcome.of_eq h with
  | @complete name tag last e e' f record _ hname htag hrecord hread =>
    obtain ⟨-, -, -, hconstants⟩ := Component.kind_of_declare hrecord
    have hinputs := Component.inputs_of_declare hrecord
    exact (Component.owns_of_none hinputs hconstants).readAttributes hread

/-- **All components of a section have references of their own.** -/
theorem owns_of_read {c : Cursor} (h : (read limits c).1 = .ok components) :
    ∀ component ∈ components, component.Owns :=
  forall_of_read owns_of_declaration h

/-- Components that answer to openings have their names. -/
theorem map_name_of_answers {os : List Opening} (h : List.Forall₂ Answers components os) :
    os.map Opening.name = components.map fun c => some c.name := by
  induction h with
  | nil => rfl
  | cons hanswers _ ih => rw [List.map_cons, List.map_cons, ih, hanswers.1]

/-- A result known by what it is mapped to. -/
theorem exists_of_map_eq_ok {ε α β : Type} {f : α → β} {result : Except ε α} {y : β}
    (h : result.map f = .ok y) : ∃ x, result = .ok x ∧ f x = y := by
  cases result with
  | error e => cases h
  | ok x => exact ⟨x, rfl, Except.ok.inj h⟩

/-- Where no name is used twice, looking one up finds its component. -/
theorem find?_of_nodup (hnodup : (components.map Component.name).Nodup) {c : Component}
    (hc : c ∈ components) (file : Option FileInfo) :
    Conversion.find? ⟨components, file⟩ c.name = some c := by
  have hsome : (components.find? fun x => x.name = c.name).isSome = true :=
    List.find?_isSome.mpr ⟨c, hc, by simp⟩
  obtain ⟨d, hd⟩ := Option.isSome_iff_exists.mp hsome
  have hname : d.name = c.name := by simpa using List.find?_some hd
  rw [Conversion.find?, hd, List.inj_on_of_nodup_map hnodup (List.mem_of_find?_eq_some hd) hc hname]

/-- **What names tell.** The components of a section have pairwise distinct numbers, and the names
that the text gives them, in the order of its openings. A reference that two of them share says
that they are named alike. So if the names are pairwise distinct, then looking a name up finds its
component, and each input and each constant is an input and a constant of one component only. -/
theorem names_of_read (h : (read limits (.ofText text)).1 = .ok components) :
    (components.map Component.id).Nodup ∧
    (∃ consumed, Consumes limits text consumed ∧
      (openings consumed).map Opening.name = components.map fun c => some c.name) ∧
    (∀ c ∈ components, ∀ d ∈ components, ∀ x ∈ c.constants.keys, x ∈ d.constants.keys →
      d.name = c.name) ∧
    ((components.map Component.name).Nodup → ∀ c ∈ components,
      (∀ file, Conversion.find? ⟨components, file⟩ c.name = some c) ∧
      ∀ x, x ∈ c.inputs ∨ x ∈ c.constants.keys →
        (x ∈ c.inputs ∧ x ∈ c.constants.keys) ∧
          ∀ d ∈ components, x ∈ d.inputs ∨ x ∈ d.constants.keys → d = c) := by
  obtain ⟨consumed, hconsumes, hanswers, hids, -⟩ := openings_of_read_ok h
  have howns := owns_of_read h
  refine ⟨hids ▸ List.nodup_range, ⟨consumed, hconsumes, map_name_of_answers hanswers⟩, ?_, ?_⟩
  · intro c hc d hd x hx hx'
    exact (howns c hc).name_eq (howns d hd) hx hx'
  · intro hnodup c hc
    refine ⟨find?_of_nodup hnodup hc, ?_⟩
    intro x hx
    rw [(howns c hc).inputs, or_self] at hx
    refine ⟨⟨((howns c hc).inputs x).mpr hx, hx⟩, ?_⟩
    intro d hd hx'
    rw [(howns d hd).inputs, or_self] at hx'
    exact List.inj_on_of_nodup_map hnodup hd hc ((howns c hc).name_eq (howns d hd) hx hx')

/-- Two layers, one of which is named like the other with a key behind it. -/
def nestedNames : List Char :=
  "<ComponentName> a <AffineComponent> <LinearParams> [ ] </AffineComponent>\n".toList ++
    "<ComponentName> a_params <AffineComponent> <LinearParams> [ ] </AffineComponent>\n".toList

theorem names_of_read_nestedNames :
    ∃ components, (read .standard (.ofText nestedNames)).1 = .ok components ∧
      (components.map Component.name).Nodup ∧
      ∀ c ∈ components, ∀ x, x ∈ c.inputs ∨ x ∈ c.constants.keys →
        ∀ d ∈ components, x ∈ d.inputs ∨ x ∈ d.constants.keys → d = c := by
  have hmap : (read .standard (.ofText nestedNames)).1.map (List.map Component.name) =
      .ok ["a", "a_params"] := by decide +kernel
  obtain ⟨components, hread, hnames⟩ := exists_of_map_eq_ok hmap
  have hnodup : (components.map Component.name).Nodup := by
    rw [hnames]
    decide
  obtain ⟨-, -, -, hunique⟩ := names_of_read hread
  exact ⟨components, hread, hnodup, fun c hc x hx => ((hunique hnodup c hc).2 x hx).2⟩

/-- Two layers of one name. -/
def namesakes : List Char :=
  "<ComponentName> a <AffineComponent> <BiasParams> [ 1 ] </AffineComponent>\n".toList ++
    "<ComponentName> a <AffineComponent> <BiasParams> [ 2 ] </AffineComponent>\n".toList

/-- **A name may be used twice**, and then a constant's name is used twice as well. -/
theorem read_namesakes :
    ∃ components, (read .standard (.ofText namesakes)).1 = .ok components ∧
      ¬(components.map Component.name).Nodup ∧
      components.map (fun c => c.constants.keys) = [["a_bias"], ["a_bias"]] := by
  have hmap : (read .standard (.ofText namesakes)).1.map
      (List.map fun c => (c.name, c.constants.keys)) =
      .ok [("a", ["a_bias"]), ("a", ["a_bias"])] := by decide +kernel
  obtain ⟨components, hread, hpairs⟩ := exists_of_map_eq_ok hmap
  have hnames := congrArg (List.map Prod.fst) hpairs
  have hkeys := congrArg (List.map Prod.snd) hpairs
  rw [List.map_map] at hnames hkeys
  refine ⟨components, hread, ?_, hkeys⟩
  rw [show components.map Component.name = ["a", "a"] from hnames]
  decide

end Section

end NnetText
