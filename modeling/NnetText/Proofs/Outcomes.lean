import NnetText.Proofs.Identity

/-!
# How a declaration can come out

A type tag, the body of a declaration and the declaration itself are read in a few steps, each of
which can fail. This file says once what the steps are and how each of them ends:
`Section.TypeTagOutcome`, `Component.BodyOutcome` and `Section.DeclarationOutcome` have a case for
each way. What holds of every declaration is then shown case by case, without looking into these
readers again.
-/

namespace NnetText

namespace Component

variable {limits : Limits} {ends : List String} {record : Component} {c : Cursor}

/-- **The ways the body of a declaration can come out**: it breaks off, or it makes no record
although it can be read, or it makes one. -/
inductive BodyOutcome (limits : Limits) (ends : List String) (record : Component) (c : Cursor) :
    Except ParseError String × Component × Cursor → Prop
  | broken {e : ParseError} {collected : Component} {d : Cursor}
      (body : collect limits ends record c = (.error e, collected, d)) :
      BodyOutcome limits ends record c (.error e, collected, d)
  | inconsistent {token reason : String} {collected : Component} {d : Cursor}
      (body : collect limits ends record c = (.ok token, collected, d)) :
      BodyOutcome limits ends record c
        (.error (.inconsistentAttributes collected.name reason), collected, d)
  | finished {token : String} {collected finished : Component} {d : Cursor}
      (body : collect limits ends record c = (.ok token, collected, d))
      (finish : collected.finish limits.arithmetic = (.ok (), finished)) :
      BodyOutcome limits ends record c (.ok token, finished, d)

theorem bodyOutcome (limits : Limits) (ends : List String) (record : Component) (c : Cursor) :
    BodyOutcome limits ends record c (readAttributes limits ends record c) := by
  unfold readAttributes
  rcases hcollect : collect limits ends record c with ⟨e | token, collected, d⟩
  · exact .broken hcollect
  · rcases hfinish : collected.finish limits.arithmetic with ⟨e | ⟨⟩, finished⟩
    · obtain ⟨reason, rfl⟩ := exists_reason_of_finish hfinish
      obtain rfl := eq_of_finish_error hfinish
      simp only [hfinish]
      exact .inconsistent hcollect
    · simp only [hfinish]
      exact .finished hcollect hfinish

theorem BodyOutcome.of_eq {r : Except ParseError String × Component × Cursor}
    (h : readAttributes limits ends record c = r) : BodyOutcome limits ends record c r :=
  h ▸ bodyOutcome limits ends record c

end Component

namespace Section

variable {limits : Limits} {id : Nat} {c : Cursor}

/-- **The ways a type tag can come out.** -/
inductive TypeTagOutcome (c : Cursor) : Reading String → Prop
  | missing {d : Cursor} (token : c.nextToken = (none, d)) :
      TypeTagOutcome c
        (.error (.invalidComponentType (ParseError.describe none) d.position), d)
  | invalid {token : String} {d : Cursor} (next : c.nextToken = (some token, d)) :
      TypeTagOutcome c
        (.error (.invalidComponentType (ParseError.describe (some token)) d.position), d)
  | valid {tag : String} {d : Cursor} (next : c.nextToken = (some tag, d))
      (type : Tag.isComponentType tag = true) : TypeTagOutcome c (.ok tag, d)

theorem typeTagOutcome (c : Cursor) : TypeTagOutcome c (typeTag c) := by
  unfold typeTag
  split
  · rename_i token d hd
    split
    · rename_i htype
      exact .valid hd htype
    · exact .invalid hd
  · rename_i d hd
    exact .missing hd

theorem TypeTagOutcome.of_eq {r : Reading String} (h : typeTag c = r) : TypeTagOutcome c r :=
  h ▸ typeTagOutcome c

/-- **The ways a declaration can come out.** Its name is missing, its type cannot be read or is
not supported, its body cannot be read, or it is complete. -/
inductive DeclarationOutcome (limits : Limits) (id : Nat) (c : Cursor) :
    Reading (Component × Bool) → Prop
  | unnamed {d : Cursor} (next : c.nextToken = (none, d)) :
      DeclarationOutcome limits id c (.error (.missingValue .componentName d.position), d)
  | untyped {name : String} {d d' : Cursor} {e : ParseError}
      (next : c.nextToken = (some name, d)) (type : typeTag d = (.error e, d')) :
      DeclarationOutcome limits id c (.error e, d')
  | unsupported {name tag : String} {d d' : Cursor} (next : c.nextToken = (some name, d))
      (type : typeTag d = (.ok tag, d')) :
      DeclarationOutcome limits id c (.error (.unsupportedComponentType tag d.position), d')
  | broken {name tag : String} {d d' f : Cursor} {record after : Component} {e : ParseError}
      (next : c.nextToken = (some name, d)) (type : typeTag d = (.ok tag, d'))
      (declare : Component.declare id name tag [] d.position = .ok record)
      (body : record.readAttributes limits [Tag.closing tag, Tag.opener] d' =
        (.error e, after, f)) :
      DeclarationOutcome limits id c (.error e, f)
  | complete {name tag last : String} {d d' f : Cursor} {record component : Component}
      (next : c.nextToken = (some name, d)) (type : typeTag d = (.ok tag, d'))
      (declare : Component.declare id name tag [] d.position = .ok record)
      (body : record.readAttributes limits [Tag.closing tag, Tag.opener] d' =
        (.ok last, component, f)) :
      DeclarationOutcome limits id c
        (.ok (component, last == Tag.opener), f.note (completed component))

theorem declarationOutcome (limits : Limits) (id : Nat) (c : Cursor) :
    DeclarationOutcome limits id c (declaration limits id c) := by
  unfold declaration
  rcases hname : c.nextToken with ⟨_ | name, d⟩
  · exact .unnamed hname
  · rcases htag : typeTag d with ⟨e | tag, d'⟩
    · simp only [htag]
      exact .untyped hname htag
    · cases hdeclare : Component.declare id name tag [] d.position with
      | error e =>
        obtain rfl : e = .unsupportedComponentType tag d.position := by
          unfold Component.declare at hdeclare
          split at hdeclare <;> cases hdeclare
          rfl
        simp only [htag, hdeclare]
        exact .unsupported hname htag
      | ok record =>
        simp only [htag, hdeclare]
        rcases hbody : record.readAttributes limits [Tag.closing tag, Tag.opener] d' with
          ⟨e | last, component, f⟩
        · exact .broken hname htag hdeclare hbody
        · exact .complete hname htag hdeclare hbody

theorem DeclarationOutcome.of_eq {r : Reading (Component × Bool)}
    (h : declaration limits id c = r) : DeclarationOutcome limits id c r :=
  h ▸ declarationOutcome limits id c

end Section

end NnetText
