/-!
# Diagnostic codes

Every event carries a code. The codes of errors are registered with what they mean: where they
come from, how severe they are, whether work has to stop, and what to do about them. Other codes
mean nothing beyond themselves.
-/

namespace NnetText

/-- A code such as `E022`. -/
structure Code where
  text : String
deriving DecidableEq, Repr

/-- Where an error comes from; everything that is not registered is information. -/
inductive Category where
  | system
  | fileProcessing
  | parsing
  | info
deriving DecidableEq, Repr

namespace Category

/-- The name of a category. -/
def name : Category → String
  | system => "System"
  | fileProcessing => "FileProcessing"
  | parsing => "Parsing"
  | info => "Info"

end Category

/-- How severe an error is. -/
inductive Severity where
  | critical
  | high
  | medium
  | low
deriving DecidableEq, Repr

namespace Severity

/-- The name of a severity. -/
def name : Severity → String
  | critical => "Critical"
  | high => "High"
  | medium => "Medium"
  | low => "Low"

end Severity

/-- What a registered code means. -/
structure Diagnosis where
  category : Category
  severity : Severity
  requiresHalt : Bool
  description : String
  recommendedAction : String
deriving DecidableEq, Repr

namespace Code

/-! ### The codes -/

/-- The program failed by itself. -/
def internalError : Code := ⟨"ERR001"⟩

/-- The log or the limits could not be set up. -/
def initializationFailure : Code := ⟨"ERR002"⟩

/-- The preferences could not be loaded. -/
def configurationError : Code := ⟨"ERR003"⟩

/-- There is no model file. -/
def fileNotFound : Code := ⟨"E005"⟩

/-- A model file exceeds its size or its number of lines. -/
def fileTooLarge : Code := ⟨"E007"⟩

/-- A model file is empty. -/
def emptyFile : Code := ⟨"E008"⟩

/-- A model file may not be read. -/
def permissionDenied : Code := ⟨"E009"⟩

/-- A model file is not UTF-8. -/
def invalidEncoding : Code := ⟨"E010"⟩

/-- Reading failed. -/
def ioError : Code := ⟨"E011"⟩

/-- A path names no regular file. -/
def invalidPath : Code := ⟨"E012"⟩

/-- A token is no type tag. -/
def invalidComponentType : Code := ⟨"E020"⟩

/-- A token is no truth value. -/
def invalidBoolean : Code := ⟨"E021"⟩

/-- A token is no number. -/
def invalidNumber : Code := ⟨"E022"⟩

/-- A line ends where a value should stand. -/
def missingValue : Code := ⟨"E023"⟩

/-- A vector or matrix does not start with a bracket. -/
def expectedOpenBracket : Code := ⟨"E024"⟩

/-- The input ends inside a vector. -/
def unterminatedVector : Code := ⟨"E025"⟩

/-- The input ends inside a matrix. -/
def unterminatedMatrix : Code := ⟨"E026"⟩

/-- The rows of a matrix differ in width. -/
def raggedMatrix : Code := ⟨"E027"⟩

/-- A vector or matrix is too large. -/
def tooManyElements : Code := ⟨"E028"⟩

/-- The input ends inside a declaration. -/
def unexpectedEndOfInput : Code := ⟨"E029"⟩

/-- A type is not registered. -/
def unsupportedComponentType : Code := ⟨"E030"⟩

/-- There are too many declarations. -/
def tooManyComponents : Code := ⟨"E031"⟩

/-- The attributes of a component do not fit together. -/
def inconsistentAttributes : Code := ⟨"E032"⟩

/-- The log is ready. -/
def logReady : Code := ⟨"I004"⟩

/-- A model file was read. -/
def fileRead : Code := ⟨"I006"⟩

/-- A component is complete. -/
def componentRead : Code := ⟨"I020"⟩

/-- The section is complete. -/
def sectionRead : Code := ⟨"I021"⟩

/-- A model was converted. -/
def converted : Code := ⟨"I030"⟩

/-- The code of information without a code of its own. -/
def plainInfo : Code := ⟨"I000"⟩

/-- The code of warnings without a code of their own. -/
def plainWarning : Code := ⟨"W000"⟩

/-- The code of debugging details. -/
def plainDebug : Code := ⟨"D000"⟩

/-! ### Their meaning -/

/-- The registered codes. -/
def registry : List (Code × Diagnosis) :=
  [
    (.internalError, ⟨.system, .critical, true,
      "Internal converter error",
      "File a bug report with the failing input"⟩),
    (.initializationFailure, ⟨.system, .critical, true,
      "Logging or limits failed to initialize",
      "Check logging configuration and startup order"⟩),
    (.configurationError, ⟨.system, .high, true,
      "Runtime preferences could not be loaded",
      "Check the preferences file path and its TOML syntax"⟩),
    (.fileNotFound, ⟨.fileProcessing, .medium, true,
      "Model file not found",
      "Check the path passed on the command line"⟩),
    (.fileTooLarge, ⟨.fileProcessing, .medium, true,
      "Model file exceeds the size or line limit",
      "Rebuild with a larger limit profile"⟩),
    (.emptyFile, ⟨.fileProcessing, .medium, true,
      "Model file is empty",
      "Provide a text model file with content"⟩),
    (.permissionDenied, ⟨.fileProcessing, .medium, true,
      "Permission denied reading the model file",
      "Check file permissions"⟩),
    (.invalidEncoding, ⟨.fileProcessing, .medium, true,
      "Model file is not valid UTF-8 text",
      "Convert binary models to text before converting"⟩),
    (.ioError, ⟨.fileProcessing, .high, true,
      "I/O error while reading input",
      "Check storage health and retry"⟩),
    (.invalidPath, ⟨.fileProcessing, .medium, true,
      "Path is empty or not a regular file",
      "Pass the path of a model file"⟩),
    (.invalidComponentType, ⟨.parsing, .high, true,
      "Token is not a <xxxComponent> type tag",
      "Check the declaration at the reported position"⟩),
    (.invalidBoolean, ⟨.parsing, .high, true,
      "Expected one of T, True, true, F, False, false",
      "Fix the boolean literal at the reported position"⟩),
    (.invalidNumber, ⟨.parsing, .high, true,
      "Numeric literal could not be parsed",
      "Fix the numeric literal at the reported position"⟩),
    (.missingValue, ⟨.parsing, .high, true,
      "Attribute tag is not followed by a value on the same line",
      "Place the value on the same line as its tag"⟩),
    (.expectedOpenBracket, ⟨.parsing, .high, true,
      "Vector or matrix literal does not start with [",
      "Check the literal following the attribute tag"⟩),
    (.unterminatedVector, ⟨.parsing, .high, true,
      "Input ended inside a vector literal",
      "Check that the model file is complete"⟩),
    (.unterminatedMatrix, ⟨.parsing, .high, true,
      "Input ended inside a matrix literal",
      "Check that the model file is complete"⟩),
    (.raggedMatrix, ⟨.parsing, .high, true,
      "Matrix rows have different lengths",
      "Check the row breaks inside the matrix literal"⟩),
    (.tooManyElements, ⟨.parsing, .high, true,
      "Vector or matrix exceeds the element limit",
      "Rebuild with a larger limit profile"⟩),
    (.unexpectedEndOfInput, ⟨.parsing, .high, true,
      "Input ended inside a component declaration",
      "Check that the model file is complete"⟩),
    (.unsupportedComponentType, ⟨.parsing, .high, true,
      "Component type has no registered variant",
      "Remove the component or add support for its type"⟩),
    (.tooManyComponents, ⟨.parsing, .high, true,
      "Model declares more components than allowed",
      "Rebuild with a larger limit profile"⟩),
    (.inconsistentAttributes, ⟨.parsing, .high, true,
      "Component attributes are missing or disagree in length",
      "Check the statistics vectors of the component"⟩)
  ]

/-- What a code means, if it is registered. -/
def diagnosis? (c : Code) : Option Diagnosis :=
  (registry.find? (fun e => e.1 = c)).map Prod.snd

/-- Where a code comes from. -/
def category (c : Code) : Category := (c.diagnosis?.map Diagnosis.category).getD .info

/-- How severe a code is. -/
def severity (c : Code) : Severity := (c.diagnosis?.map Diagnosis.severity).getD .low

/-- Whether work has to stop once a code is raised. -/
def requiresHalt (c : Code) : Bool := (c.diagnosis?.map Diagnosis.requiresHalt).getD false

end Code

end NnetText
