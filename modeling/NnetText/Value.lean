import NnetText.Matrix
import NnetText.Number.Binary

/-!
# Attribute values and tensors

What follows a tag is a truth value, an integer, a number, a vector of either or a matrix of
numbers. Weights become tensors when they are turned into constants: numbers with a shape.
-/

namespace NnetText

/-- The value of an attribute. -/
inductive Value where
  | bool (b : Bool)
  | int (n : Int)
  | float (x : Double)
  | ints (ns : List Int)
  | floats (xs : List Single)
  | matrix (m : Matrix Single)
deriving DecidableEq, Repr

/-- Numbers with a shape. -/
structure Tensor where
  shape : List Nat
  data : List Single
deriving DecidableEq, Repr

namespace Tensor

/-- A tensor of one axis. -/
def vector (xs : List Single) : Tensor := ⟨[xs.length], xs⟩

/-- A tensor of two axes. -/
def ofMatrix (m : Matrix Single) : Tensor := ⟨[m.rows, m.cols], m.data⟩

/-- The number of elements. -/
def size (t : Tensor) : Nat := t.data.length

/-- Whether there is no element. -/
def isEmpty (t : Tensor) : Bool := t.data.isEmpty

end Tensor

namespace Value

/-- The integer, if the value is one. -/
def int? : Value → Option Int
  | int n => some n
  | _ => none

/-- The number, if the value is one or an integer. -/
def float? : Value → Option Double
  | float x => some x
  | int n => some (Format.double.ofInt n)
  | _ => none

/-- The vector of numbers, if the value is one. -/
def floats? : Value → Option (List Single)
  | floats xs => some xs
  | _ => none

/-- The matrix, if the value is one. -/
def matrix? : Value → Option (Matrix Single)
  | matrix m => some m
  | _ => none

/-- The number of elements; a scalar counts as one. -/
def size : Value → Nat
  | bool _ | int _ | float _ => 1
  | ints ns => ns.length
  | floats xs => xs.length
  | matrix m => m.data.length

/-- Whether there is no element. -/
def isEmpty (v : Value) : Bool := v.size == 0

/-- What kind of value it is, in words. -/
def kindName : Value → String
  | bool _ => "bool"
  | int _ => "int"
  | float _ => "float"
  | ints _ => "int vector"
  | floats _ => "float vector"
  | matrix _ => "matrix"

/-- The value as a tensor; a scalar has none. -/
def tensor? : Value → Option Tensor
  | floats xs => some (.vector xs)
  | ints ns => some (.vector (ns.map Format.single.ofInt))
  | matrix m => some (.ofMatrix m)
  | _ => none

end Value

end NnetText
