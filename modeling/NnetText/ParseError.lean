import NnetText.Number.Decimal
import NnetText.Number.Integer
import NnetText.Position

/-!
# Why a model text cannot be read

Each constructor is one cause, with the token and the place that show it. The wording of all
causes stands in `ParseError.message`. None of them is recovered from.
-/

namespace NnetText

/-- What a line should have gone on with. -/
inductive Expected where
  | bool
  | integer
  | float
  | componentName
deriving DecidableEq, Repr

namespace Expected

/-- The expected thing in words. -/
def text : Expected → String
  | bool => "bool"
  | integer => "integer"
  | float => "float"
  | componentName => "component name"

end Expected

/-- The two bracketed literals. -/
inductive Construct where
  | vector
  | matrix
deriving DecidableEq, Repr

namespace Construct

/-- The literal in words. -/
def text : Construct → String
  | vector => "vector"
  | matrix => "matrix"

end Construct

/-- The cause that ends the reading of a model text. -/
inductive ParseError where
  | invalidComponentType (token : String) (place : Position)
  | invalidBoolean (token : String) (place : Position)
  | invalidInteger (token : String) (place : Position) (fault : IntegerFault)
  | invalidFloat (token : String) (place : Position) (fault : DecimalFault)
  | missingValue (expected : Expected) (place : Position)
  | expectedOpenBracket (token : String) (place : Position)
  | unterminatedVector (start : Position)
  | unterminatedMatrix (start : Position)
  | raggedMatrix (row expected found : Nat) (place : Position)
  | tooManyElements (construct : Construct) (limit : Nat) (start : Position)
  | unexpectedEndOfInput (place : Position)
  | unsupportedComponentType (tag : String) (place : Position)
  | tooManyComponents (limit : Nat)
  | inconsistentAttributes (component reason : String)
deriving DecidableEq, Repr

namespace ParseError

/-- The words of an error. -/
def message : ParseError → String
  | invalidComponentType token p =>
    "Error reading Component at " ++ p.text ++ ", expected <xxxComponent>, got: " ++ token
  | invalidBoolean token p => "Error at " ++ p.text ++ ", expected bool but got " ++ token
  | invalidInteger token p _ => "Invalid integer literal '" ++ token ++ "' at " ++ p.text
  | invalidFloat token p _ => "Invalid float literal '" ++ token ++ "' at " ++ p.text
  | missingValue expected p =>
    "Expected " ++ expected.text ++ " at " ++ p.text ++ " but the line ended"
  | expectedOpenBracket token p => "Error at " ++ p.text ++ ", expected [ but got " ++ token
  | unterminatedVector p => "Encountered EOF while reading vector started at " ++ p.text
  | unterminatedMatrix p => "Encountered EOF while reading matrix started at " ++ p.text
  | raggedMatrix row expected found p =>
    "Matrix row " ++ toString row ++ " has " ++ toString found ++ " elements, expected " ++
      toString expected ++ " (at " ++ p.text ++ ")"
  | tooManyElements construct limit p =>
    construct.text ++ " at " ++ p.text ++ " exceeds the limit of " ++ toString limit ++
      " elements"
  | unexpectedEndOfInput p =>
    "Error parsing nnet3 file: input ended at " ++ p.text ++ " inside a component declaration"
  | unsupportedComponentType tag p => "Unsupported component type " ++ tag ++ " at " ++ p.text
  | tooManyComponents limit => "Too many components: the limit is " ++ toString limit
  | inconsistentAttributes component reason =>
    "Component '" ++ component ++ "' has inconsistent attributes: " ++ reason

/-- The place an error refers to, if it has one. -/
def position? : ParseError → Option Position
  | invalidComponentType _ p | invalidBoolean _ p | invalidInteger _ p _ | invalidFloat _ p _
  | missingValue _ p | expectedOpenBracket _ p | unterminatedVector p | unterminatedMatrix p
  | raggedMatrix _ _ _ p | tooManyElements _ _ p | unexpectedEndOfInput p
  | unsupportedComponentType _ p => some p
  | tooManyComponents _ | inconsistentAttributes _ _ => none

/-- What the number reader had to object to, for the errors that come from it. -/
def fault? : ParseError → Option String
  | invalidInteger _ _ fault => some fault.message
  | invalidFloat _ _ fault => some fault.message
  | _ => none

/-- A token as an error shows it; a line without one is shown as its end. -/
def describe (token : Option String) : String :=
  token.getD "end of line"

end ParseError

end NnetText
