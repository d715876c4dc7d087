import NnetText.Position

/-!
# What is noticed while reading

Reading a model text leaves a trail: tags that were passed over, components that were finished,
the end of the section, a line that could not be read. The trail is a list of plain values.
Whether any of them is reported is decided afterwards, so that reading cannot depend on it.
-/

namespace NnetText

/-- One thing noticed on the way through the input. -/
inductive Notice where
  /-- A line of the input could not be read, for the given reason. -/
  | unreadableLine (reason : String)
  /-- A token that starts like a tag but is not in the table of its component. -/
  | skippedTag (component tag : String) (place : Position)
  /-- A component is complete. -/
  | componentRead (id : Nat) (name typeTag : String) (attributes constants : Nat)
  /-- The section is complete. -/
  | sectionRead (components lines : Nat)
deriving DecidableEq, Repr

end NnetText
