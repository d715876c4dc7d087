import NnetText.Component.Basic
import NnetText.Json

/-!
# Components as documents

How values, tensors and components are written as JSON: a value is written as what it is, without
its kind, and a component lists its fields in a fixed order, its attributes and constants in
theirs.
-/

namespace NnetText

namespace Value

/-- A value as a document. -/
def json : Value → Json
  | bool b => .bool b
  | int n => .int n
  | float x => .ofDouble x
  | ints ns => .array (ns.map .int)
  | floats xs => .array (xs.map .ofSingle)
  | matrix m =>
    .object
      [("rows", .ofNat m.rows), ("cols", .ofNat m.cols), ("data", .array (m.data.map .ofSingle))]

end Value

namespace Tensor

/-- A tensor as a document. -/
def json (t : Tensor) : Json :=
  .object [("shape", .array (t.shape.map .ofNat)), ("data", .array (t.data.map .ofSingle))]

end Tensor

namespace Component

/-- A component as a document. -/
def json (c : Component) : Json :=
  .object
    [("id", .ofNat c.id),
      ("name", .string c.name),
      ("kind", .string c.kind.name),
      ("type_tag", .string c.typeTag),
      ("inputs", .array (c.inputs.map .string)),
      ("dim", (c.dim.map Json.int).getD .null),
      ("attributes", .object (c.attributes.entries.map (fun e => (e.1.name, e.2.json)))),
      ("constants", .object (c.constants.entries.map (fun e => (e.1, e.2.json))))]

end Component

end NnetText
