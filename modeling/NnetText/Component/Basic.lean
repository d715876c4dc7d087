import NnetText.Component.Kind
import NnetText.OrderedMap
import NnetText.Tag

/-!
# Components

A component is one node of a network: its identity, the names of the nodes and constants that
feed it, its output dimension if known, and its attributes and constants in the order in which
they came about.
-/

namespace NnetText

/-- One node of a network. -/
structure Component where
  id : Nat
  name : String
  kind : Kind
  /-- The registered type for a declared component, the name of the kind for a made one. -/
  typeTag : String
  inputs : List String
  dim : Option Int := none
  attributes : OrderedMap AttributeKey Value := .empty
  constants : OrderedMap String Tensor := .empty
deriving DecidableEq, Repr

namespace Component

/-- The empty record for a declaration of the type that `tag` names. -/
def declare (id : Nat) (name tag : String) (inputs : List String) (place : Position) :
    Except ParseError Component :=
  match Kind.ofType? (Tag.name tag) with
  | some kind => .ok { id, name, kind, typeTag := Tag.name tag, inputs }
  | none => .error (.unsupportedComponentType tag place)

/-- The record with one attribute written. -/
def setAttribute (c : Component) (key : AttributeKey) (value : Value) : Component :=
  { c with attributes := c.attributes.insert key value }

end Component

end NnetText
