import NnetText.Component.Attributes

/-!
# The component section

A section is a stream of tokens in which the opener `<ComponentName>` announces a declaration:
a name, a type tag and a body. The body ends at the tag that closes the type or at the next
opener, which then announces the next declaration. Outside of declarations every token is passed
over, up to the tag that ends the section or the end of the input.
-/

namespace NnetText.Section

/-- A type tag on the current line. -/
def typeTag (c : Cursor) : Reading String :=
  match c.nextToken with
  | (some token, d) =>
    if Tag.isComponentType token then (.ok token, d)
    else (.error (.invalidComponentType token d.position), d)
  | (none, d) => (.error (.invalidComponentType (ParseError.describe none) d.position), d)

theorem remaining_typeTag_le (c : Cursor) : (typeTag c).2.remaining ≤ c.remaining := by
  have h := c.remaining_nextToken_le
  unfold typeTag
  split
  · split <;> simp_all
  · simp_all

/-- The notice that a component is complete. -/
def completed (c : Component) : Notice :=
  .componentRead c.id c.name c.typeTag c.attributes.size c.constants.size

/-- A declaration behind its opener, up to and including the body's end. The flag says whether
that end was the opener of another one. -/
def declaration (limits : Limits) (id : Nat) (c : Cursor) : Reading (Component × Bool) :=
  match c.nextToken with
  | (none, d) => (.error (.missingValue .componentName d.position), d)
  | (some name, d) =>
    match typeTag d with
    | (.error e, e') => (.error e, e')
    | (.ok tag, e') =>
      match Component.declare id name tag [] d.position with
      | .error e => (.error e, e')
      | .ok record =>
        match record.readAttributes limits [Tag.closing tag, Tag.opener] e' with
        | (.error e, _, f) => (.error e, f)
        | (.ok token, component, f) =>
          (.ok (component, token == Tag.opener), f.note (completed component))

theorem remaining_declaration_lt {limits : Limits} {id : Nat} {c d : Cursor}
    {result : Component × Bool} (h : declaration limits id c = (.ok result, d)) :
    d.remaining < c.remaining := by
  unfold declaration at h
  split at h
  · simp at h
  · rename_i name d₁ hname
    have h₁ := Cursor.remaining_nextToken_lt hname
    have h₂ := remaining_typeTag_le d₁
    split at h
    · simp at h
    · rename_i tag d₂ htag
      rw [htag] at h₂
      split at h
      · simp at h
      · rename_i record hrecord
        have h₃ := Component.remaining_readAttributes_le limits
          [Tag.closing tag, Tag.opener] record d₂
        split at h
        · simp at h
        · rename_i token component d₃ hattr
          rw [hattr] at h₃
          obtain rfl : d₃.note (completed component) = d := congrArg Prod.snd h
          rw [Cursor.remaining_note]
          simp only at h₂ h₃
          omega

/-- Passes over tokens up to and including the next opener, and says whether there was one before
the end of the section. -/
def seekOpener (c : Cursor) : Bool × Cursor :=
  match _h : c.pull with
  | (none, d) => (false, d)
  | (some token, d) =>
    if token = Tag.sectionEnd then (false, d)
    else if token = Tag.opener then (true, d)
    else seekOpener d
termination_by c.remaining
decreasing_by exact Cursor.remaining_pull_lt _h

theorem remaining_seekOpener_le (c : Cursor) : (seekOpener c).2.remaining ≤ c.remaining := by
  fun_induction seekOpener c with
  | case1 c d h => exact Cursor.remaining_le_of_pull h
  | case2 c d h => exact Cursor.remaining_le_of_pull h
  | case3 c d h => exact Cursor.remaining_le_of_pull h
  | case4 c token d h hend hopen ih => exact Nat.le_trans ih (Cursor.remaining_le_of_pull h)

/-- The end of the section, with the components found, newest first. -/
def close (found : List Component) (c : Cursor) : Reading (List Component) :=
  (.ok found.reverse, c.note (.sectionRead found.length c.lineNumber))

/-- The declarations from behind an opener on, after those found already, newest first. Their
number is checked before a declaration is looked at. -/
def declarations (limits : Limits) (found : List Component) (c : Cursor) :
    Reading (List Component) :=
  if limits.components ≤ found.length then (.error (.tooManyComponents limits.components), c)
  else
    match _h : declaration limits found.length c with
    | (.error e, d) => (.error e, d)
    | (.ok (component, true), d) => declarations limits (component :: found) d
    | (.ok (component, false), d) =>
      match _hd : seekOpener d with
      | (true, e) => declarations limits (component :: found) e
      | (false, e) => close (component :: found) e
termination_by c.remaining
decreasing_by
  · exact remaining_declaration_lt _h
  · have hseek := remaining_seekOpener_le d
    rw [_hd] at hseek
    exact Nat.lt_of_le_of_lt hseek (remaining_declaration_lt _h)

/-- **Reads the section**: one component per declaration, in their order. -/
def read (limits : Limits) (c : Cursor) : Reading (List Component) :=
  match seekOpener c with
  | (true, d) => declarations limits [] d
  | (false, d) => close [] d

end NnetText.Section
