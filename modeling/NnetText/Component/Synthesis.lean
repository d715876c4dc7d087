import NnetText.Component.Basic
import NnetText.Number.Shortest

/-!
# Components made for a graph

When a graph is assembled, nodes are made that no declaration describes. Each is named after what
it is made from, so that the same reduction of the same node gets the same name again.
-/

namespace NnetText.Component

/-- A component of a made kind, whose type is the name of its kind. -/
def make (kind : Kind) (id : Nat) (name : String) (inputs : List String) : Component :=
  { id, name, kind, typeTag := kind.name, inputs }

/-- A graph input of known dimension. -/
def input (id : Nat) (name : String) (dim : Int) : Component :=
  { make .input id name [] with dim := some dim }

/-- A graph output. -/
def output (id : Nat) (name : String) (inputs : List String) : Component :=
  make .output id name inputs

/-- Inputs put side by side. -/
def append (id : Nat) (inputs : List String) : Component :=
  make .append id ("append_" ++ toString id) inputs

/-- An input shifted in time. -/
def offset (id : Nat) (input : String) (shift : Int) : Component :=
  (make .offset id (input ++ ".offset." ++ toString shift) [input]).setAttribute .offset
    (.int shift)

/-- An input with one of its indexes fixed. -/
def replaceIndex (id : Nat) (input var index : String) : Component :=
  make .replaceIndex id (input ++ ".ReplaceIndex." ++ var ++ index) [input]

/-- Numbers in names are written in place between a ten-thousandth and 10 ^ 16, and positive
powers of ten carry no sign. -/
def nameLayout : Layout := ⟨-4, 15, false, .up⟩

/-- A number as it is written in a name. -/
def nameNumber (x : Double) : String :=
  match x.meaning with
  | .nan => "NaN"
  | .infinite negative => if negative then "-inf" else "inf"
  | .finite negative m e => nameLayout.finite .double negative m e

/-- An input multiplied by a constant. -/
def scale (id : Nat) (input : String) (factor : Double) : Component :=
  (make .scale id (input ++ ".scale." ++ nameNumber factor) [input]).setAttribute .scale
    (.float factor)

/-- Inputs put side by side over a range of times. -/
def splice (id : Nat) (inputs : List String) (context : List Int) : Component :=
  (make .splice id ("splice_" ++ toString id) inputs).setAttribute .context (.ints context)

/-- Inputs added up. -/
def sum (id : Nat) (inputs : List String) : Component :=
  make .sum id (".sum.".intercalate inputs) inputs

end NnetText.Component
