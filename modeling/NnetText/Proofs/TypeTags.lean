import Mathlib.Data.List.TakeWhile
import NnetText.Proofs.Outcomes

/-!
# Which types are accepted

Behind the name of a component stands the tag of its type. It has to pass three tests: its shape is
that of a type tag, its brackets come off, and what is left is in the registry. This file says what
the three come to together (`Section.declaration_of_typeTag`): a tag is accepted exactly if it
*names* a registered type, and the record is then of that type and its body ends at the tag that
closes the type. A tag of the right shape that names no registered type is not supported, and any
other token is no type tag at all.

What `Tag.Names` asks for is less than one would expect. The closing bracket stands alone, since the
shape asks for `Component` right in front of it; but any number of brackets may open, because all of
them come off. A tag with two of them is not in the registry's table, and is accepted all the same
(`Section.read_doubledBracket`).
-/

namespace NnetText

namespace Tag

/-- **A tag names a type**: there are brackets that open, one at least, then the name, and then one
bracket that closes. -/
def Names (tag typeName : String) : Prop :=
  ∃ n, tag.toList = List.replicate (n + 1) '<' ++ (typeName.toList ++ ['>'])

theorem isComponentType_iff {tag : String} :
    isComponentType tag = true ↔
      13 ≤ tag.toList.length ∧ ['<'] <+: tag.toList ∧ "Component>".toList <:+ tag.toList := by
  simp only [isComponentType, Bool.and_eq_true, decide_eq_true_eq, List.isPrefixOf_iff_prefix,
    List.isSuffixOf_iff_suffix, and_assoc]

/-- **What comes off a tag are brackets**: opening ones in front and closing ones behind. -/
theorem exists_toList_eq (tag : String) :
    ∃ n m, tag.toList =
      List.replicate n '<' ++ ((name tag).toList ++ List.replicate m '>') := by
  have hruns : ∀ (bracket : Char) (cs : List Char), ∃ n,
      cs = List.replicate n bracket ++ cs.dropWhile (· == bracket) := by
    intro bracket cs
    refine ⟨(cs.takeWhile (· == bracket)).length, ?_⟩
    have hbrackets : cs.takeWhile (· == bracket) =
        List.replicate (cs.takeWhile (· == bracket)).length bracket :=
      List.eq_replicate_of_mem fun c hc => by simpa using List.mem_takeWhile_imp hc
    rw [← hbrackets, List.takeWhile_append_dropWhile]
  obtain ⟨n, hfront⟩ := hruns '<' tag.toList
  obtain ⟨m, hbehind⟩ := hruns '>' (tag.toList.dropWhile (· == '<')).reverse
  refine ⟨n, m, ?_⟩
  have hinner := congrArg List.reverse hbehind
  rw [List.reverse_reverse, List.reverse_append, List.reverse_replicate] at hinner
  rw [name, String.toList_ofList, ← hinner, ← hfront]

/-! ### Names in the registry -/

/-- A registered type starts with no bracket, is long enough for a tag, and ends as the shape of a
tag asks for. -/
theorem exists_front_of_registered {typeName : String} {kind : Kind}
    (h : (typeName, kind) ∈ Kind.registry) :
    (∃ c cs, typeName.toList = c :: cs ∧ c ≠ '<') ∧ 11 ≤ typeName.toList.length ∧
      ∃ front, typeName.toList = front ++ "Component".toList := by
  have hall : ∀ entry ∈ Kind.registry, entry.1.toList ≠ [] ∧ entry.1.toList.head? ≠ some '<' ∧
      11 ≤ entry.1.toList.length ∧ "Component".toList <:+ entry.1.toList := by decide
  obtain ⟨hne, hhead, hlength, front, hfront⟩ := hall _ h
  obtain ⟨c, cs, hcs⟩ := List.exists_cons_of_ne_nil hne
  refine ⟨⟨c, cs, hcs, ?_⟩, hlength, front, hfront.symm⟩
  rintro rfl
  exact hhead (congrArg List.head? hcs)

section Registered

variable {tag typeName : String} {kind : Kind}

/-- A tag that names a registered type has the shape of one. -/
theorem Names.isComponentType (h : Names tag typeName) (hmem : (typeName, kind) ∈ Kind.registry) :
    isComponentType tag = true := by
  obtain ⟨n, htag⟩ := h
  obtain ⟨-, hlength, front, hfront⟩ := exists_front_of_registered hmem
  rw [isComponentType_iff, htag]
  refine ⟨?_, ?_, ?_⟩
  · simp only [List.length_append, List.length_replicate, List.length_singleton]
    omega
  · exact ⟨List.replicate n '<' ++ (typeName.toList ++ ['>']), rfl⟩
  · refine ⟨List.replicate (n + 1) '<' ++ front, ?_⟩
    rw [hfront, List.append_assoc, List.append_assoc]
    rfl

/-- The brackets come off a tag that names a registered type, and leave the type. -/
theorem Names.name_eq (h : Names tag typeName) (hmem : (typeName, kind) ∈ Kind.registry) :
    name tag = typeName := by
  obtain ⟨n, htag⟩ := h
  obtain ⟨⟨c, cs, hcs, hc⟩, -, front, hfront⟩ := exists_front_of_registered hmem
  have hopen : tag.toList.dropWhile (· == '<') = typeName.toList ++ ['>'] := by
    rw [htag, List.dropWhile_append_of_pos (fun x hx => by simp [List.eq_of_mem_replicate hx]), hcs,
      List.cons_append, List.dropWhile_cons_of_neg (by simpa using hc)]
  have hclose : (typeName.toList ++ ['>']).reverse.dropWhile (· == '>') =
      typeName.toList.reverse := by
    rw [List.reverse_append, List.reverse_singleton, List.singleton_append, hfront,
      List.reverse_append]
    rfl
  rw [name, hopen, hclose, List.reverse_reverse, String.ofList_toList]

/-- **A tag of the shape of one names what is left without its brackets**, if that is
registered. -/
theorem names_of_registered (h : isComponentType tag = true)
    (hmem : (name tag, kind) ∈ Kind.registry) : Names tag (name tag) := by
  obtain ⟨-, ⟨behind, hopen⟩, before, hclose⟩ := isComponentType_iff.mp h
  obtain ⟨⟨c, cs, hcs, hc⟩, -, front, hfront⟩ := exists_front_of_registered hmem
  obtain ⟨n, m, htag⟩ := exists_toList_eq tag
  -- the type itself does not start with a bracket, so that one has come off in front
  have hfirst : n ≠ 0 := by
    rintro rfl
    rw [← hopen, hcs, List.replicate_zero, List.nil_append, List.cons_append] at htag
    exact hc (List.cons.inj htag).1.symm
  obtain ⟨n, rfl⟩ := Nat.exists_eq_succ_of_ne_zero hfirst
  -- read from the end, one bracket is followed by the last letter of `Component`
  have hreverse := congrArg List.reverse (hclose.trans htag)
  have hshape : "Component>".toList.reverse = '>' :: 't' :: "nenopmoC".toList := by decide
  have hend : "Component".toList.reverse = 't' :: "nenopmoC".toList := by decide
  rw [List.reverse_append, List.reverse_append, List.reverse_append, List.reverse_replicate, hfront,
    List.reverse_append, hshape, hend] at hreverse
  have hlast : m = 1 := by
    rcases m with _ | _ | m
    · exact absurd (List.cons.inj hreverse).1 (by decide)
    · rfl
    · exact absurd (List.cons.inj (List.cons.inj hreverse).2).1 (by decide)
  subst hlast
  exact ⟨n, htag⟩

end Registered

end Tag

/-! ### Declarations -/

namespace Component

/-- **A record is made of a tag that names a registered type**, and is of that type. -/
theorem declare_of_names {tag typeName : String} {kind : Kind} (h : Tag.Names tag typeName)
    (hmem : (typeName, kind) ∈ Kind.registry) (id : Nat) (name : String) (inputs : List String)
    (place : Position) :
    declare id name tag inputs place = .ok { id, name, kind, typeTag := typeName, inputs } := by
  rw [declare, h.name_eq hmem, Kind.ofType?_eq_some_iff.mpr hmem]

/-- **A record is made of no other tag** of the shape of one. -/
theorem declare_of_not_names {tag : String} (htype : Tag.isComponentType tag = true)
    (h : ∀ entry ∈ Kind.registry, ¬Tag.Names tag entry.1) (id : Nat) (name : String)
    (inputs : List String) (place : Position) :
    declare id name tag inputs place = .error (.unsupportedComponentType tag place) := by
  rw [declare]
  cases hkind : Kind.ofType? (Tag.name tag) with
  | none => rfl
  | some kind =>
    have hmem := Kind.ofType?_eq_some_iff.mp hkind
    exact (h (Tag.name tag, kind) hmem (Tag.names_of_registered htype hmem)).elim

end Component

namespace Section

variable {c d e : Cursor} {name tag : String}

theorem typeTag_of_nextToken (h : d.nextToken = (some tag, e)) :
    typeTag d =
      if Tag.isComponentType tag then (.ok tag, e)
      else (.error (.invalidComponentType tag e.position), e) := by
  rw [typeTag, h]

/-- **A record is created** for the name and the tag that stand in front of a cursor. -/
def Creates (id : Nat) (c : Cursor) (record : Component) : Prop :=
  ∃ name tag d e, c.nextToken = (some name, d) ∧ typeTag d = (.ok tag, e) ∧
    Component.declare id name tag [] d.position = .ok record

/-- What a declaration comes to once its record has been created: the body is read into it, up to
one of the tokens that end it. -/
def filled (limits : Limits) (ends : List String) (record : Component) (c : Cursor) :
    Reading (Component × Bool) :=
  match record.readAttributes limits ends c with
  | (.error e, _, f) => (.error e, f)
  | (.ok token, component, f) =>
    (.ok (component, token == Tag.opener), f.note (completed component))

/-- A record is created of a tag that names a registered type, and of no other. -/
theorem creates_iff (hname : c.nextToken = (some name, d)) (htag : d.nextToken = (some tag, e))
    (id : Nat) (record : Component) :
    Creates id c record ↔
      ∃ typeName kind, (typeName, kind) ∈ Kind.registry ∧ Tag.Names tag typeName ∧
        record = { id, name, kind, typeTag := typeName, inputs := [] } := by
  constructor
  · rintro ⟨name', tag', d', e', hname', htype, hdeclare⟩
    obtain ⟨rfl, rfl⟩ : name = name' ∧ d = d' := by simpa using hname.symm.trans hname'
    cases TypeTagOutcome.of_eq htype with
    | valid next type =>
      obtain ⟨rfl, rfl⟩ : tag = tag' ∧ e = e' := by simpa using htag.symm.trans next
      by_contra hnone
      have hnot : ∀ entry ∈ Kind.registry, ¬Tag.Names tag entry.1 := by
        intro entry hmem hnames
        have hrecord := Component.declare_of_names hnames hmem id name [] d.position
        exact hnone ⟨entry.1, entry.2, hmem, hnames,
          Except.ok.inj (hdeclare.symm.trans hrecord)⟩
      rw [Component.declare_of_not_names type hnot] at hdeclare
      cases hdeclare
  · rintro ⟨typeName, kind, hmem, hnames, rfl⟩
    refine ⟨name, tag, d, e, hname, ?_, Component.declare_of_names hnames hmem id name [] _⟩
    rw [typeTag_of_nextToken htag, if_pos (hnames.isComponentType hmem)]

/-- **Which types are accepted.** Let a name and a tag be next. A record is created exactly if the
tag names a registered type; it is of that type, and its body is read up to the tag that closes the
type or up to the next opener. If the tag has the shape of one and names no registered type, it is
not supported, and if it does not have that shape, it is no type tag. As long as no two brackets
open it, what names a registered type is the type in brackets. -/
theorem declaration_of_typeTag (limits : Limits) (id : Nat) (hname : c.nextToken = (some name, d))
    (htag : d.nextToken = (some tag, e)) :
    (∀ record, Creates id c record ↔
      ∃ typeName kind, (typeName, kind) ∈ Kind.registry ∧ Tag.Names tag typeName ∧
        record = { id, name, kind, typeTag := typeName, inputs := [] }) ∧
    (∀ record, Creates id c record → declaration limits id c =
      filled limits ["</" ++ record.typeTag ++ ">", Tag.opener] record e) ∧
    ((∀ entry ∈ Kind.registry, ¬Tag.Names tag entry.1) → Tag.isComponentType tag = true →
      declaration limits id c = (.error (.unsupportedComponentType tag d.position), e)) ∧
    (Tag.isComponentType tag = false →
      declaration limits id c = (.error (.invalidComponentType tag e.position), e)) ∧
    (¬"<<".toList <+: tag.toList →
      ∀ typeName, Tag.Names tag typeName ↔ tag = "<" ++ typeName ++ ">") := by
  have htype := typeTag_of_nextToken htag
  refine ⟨creates_iff hname htag id, ?_, ?_, ?_, ?_⟩
  · intro record hcreates
    obtain ⟨typeName, kind, hmem, hnames, rfl⟩ := (creates_iff hname htag id record).mp hcreates
    rw [if_pos (hnames.isComponentType hmem)] at htype
    simp only [declaration, hname, htype, Component.declare_of_names hnames hmem, Tag.closing,
      hnames.name_eq hmem]
    rfl
  · intro hnone hshape
    rw [if_pos hshape] at htype
    simp only [declaration, hname, htype, Component.declare_of_not_names hshape hnone]
  · intro hshape
    rw [hshape, if_neg Bool.false_ne_true] at htype
    simp only [declaration, hname, htype]
  · intro hsingle typeName
    have hbrackets : ("<" ++ typeName ++ ">").toList = '<' :: (typeName.toList ++ ['>']) := by
      simp
    constructor
    · rintro ⟨n, hn⟩
      rcases n with _ | n
      · exact String.toList_inj.mp (hn.trans hbrackets.symm)
      · exact absurd ⟨List.replicate n '<' ++ (typeName.toList ++ ['>']), hn.symm⟩ hsingle
    · rintro rfl
      exact ⟨0, hbrackets⟩

/-- A name, a tag that three brackets open, and the end of the body. -/
def tripledBracket : Cursor :=
  .within "a <<<LinearComponent> </LinearComponent>".toList 0 []

/-- The record that is created for it. -/
def tripledRecord : Component :=
  { id := 0, name := "a", kind := .affine, typeTag := "LinearComponent", inputs := [] }

theorem declaration_of_typeTag_tripledBracket :
    ∃ d e, tripledBracket.nextToken = (some "a", d) ∧
      d.nextToken = (some "<<<LinearComponent>", e) ∧ Creates 0 tripledBracket tripledRecord ∧
      declaration .standard 0 tripledBracket =
        filled .standard ["</LinearComponent>", Tag.opener] tripledRecord e := by
  have hname : tripledBracket.nextToken.1 = some "a" := by decide +kernel
  have htag : tripledBracket.nextToken.2.nextToken.1 = some "<<<LinearComponent>" := by
    decide +kernel
  obtain ⟨hcreates, hfilled, -⟩ :=
    declaration_of_typeTag .standard 0 (Prod.ext hname rfl) (Prod.ext htag rfl)
  have hnames : Tag.Names "<<<LinearComponent>" "LinearComponent" := ⟨2, by decide⟩
  have hrecord := (hcreates tripledRecord).mpr
    ⟨"LinearComponent", .affine, by decide, hnames, rfl⟩
  exact ⟨_, _, Prod.ext hname rfl, Prod.ext htag rfl, hrecord, hfilled _ hrecord⟩

/-- A declaration whose type tag two brackets open. -/
def doubledBracket : List Char :=
  "<ComponentName> a <<NoOpComponent> </NoOpComponent>\n".toList

/-- **A tag may be accepted that is no registered type in brackets.** -/
theorem read_doubledBracket :
    (∀ entry ∈ Kind.registry, "<<NoOpComponent>" ≠ "<" ++ entry.1 ++ ">") ∧
      Tag.isComponentType "<<NoOpComponent>" = true ∧
      (read .standard (.ofText doubledBracket)).1 = .ok
        [{ id := 0, name := "a", kind := .generic, typeTag := "NoOpComponent", inputs := [] }] := by
  decide +kernel

end Section

end NnetText
