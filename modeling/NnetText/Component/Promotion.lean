import NnetText.Component.Normalization

/-!
# Finishing a record

When the body of a declaration has been read, the dimension moves from the attributes into a
field of its own, and the weights move from the attributes into constants. A constant is named
after its component and its key, and its name is added to the inputs of the component. A bias
without elements is dropped.
-/

namespace NnetText.Component

/-- The name of the constant that a component's attribute becomes. -/
def constantName (name : String) (key : AttributeKey) : String :=
  name ++ "_" ++ key.name

/-- Moves the dimension out of the attributes. -/
def liftDim (c : Component) : Component :=
  match c.attributes.get? .dim with
  | none => c
  | some value => { c with dim := value.int?, attributes := c.attributes.erase .dim }

/-- Moves one attribute into the constants, if it is there. -/
def promoteKey (c : Component) (key : AttributeKey) : Component :=
  match c.attributes.get? key with
  | none => c
  | some value =>
    let rest := { c with attributes := c.attributes.erase key }
    if key = .bias ∧ value.isEmpty then rest
    else
      match value.tensor? with
      | some tensor =>
        { rest with
          inputs := c.inputs ++ [constantName c.name key]
          constants := c.constants.insert (constantName c.name key) tensor }
      | none => rest.setAttribute key value

/-- Moves all weights into the constants. -/
def promote (c : Component) : Component :=
  AttributeKey.promoted.foldl promoteKey c

/-- **Finishes a record**, unless its attributes do not fit together. The record goes with the
result, as it stands then. -/
def finish (A : Arithmetic Single) (c : Component) : Except ParseError Unit × Component :=
  match c.adjust A with
  | (.error e, d) => (.error e, d)
  | (.ok (), d) => (.ok (), d.liftDim.promote)

end NnetText.Component
