import NnetText.Literal

/-!
# Kinds of components

A declaration names a type, and each registered type belongs to a kind. A kind says which tags
are looked for in the body of a declaration, in which form the value behind a tag is written and
under which key it is kept. Kinds that are only made when a graph is assembled look for no tag.
-/

namespace NnetText

/-- What an attribute is kept under. -/
inductive AttributeKey where
  | dim
  | inputDim
  | outputDim
  | params
  | bias
  | epsilon
  | targetRms
  | statsMean
  | statsVar
  | timeOffsets
  | offset
  | scale
  | context
deriving DecidableEq, Repr

namespace AttributeKey

/-- The name of a key. -/
def name : AttributeKey → String
  | dim => "dim"
  | inputDim => "input_dim"
  | outputDim => "output_dim"
  | params => "params"
  | bias => "bias"
  | epsilon => "epsilon"
  | targetRms => "target_rms"
  | statsMean => "stats_mean"
  | statsVar => "stats_var"
  | timeOffsets => "time_offsets"
  | offset => "offset"
  | scale => "scale"
  | context => "context"

/-- The keys whose values become constants, in the order in which they do. -/
def promoted : List AttributeKey := [params, bias, statsMean, statsVar]

end AttributeKey

/-- One line of a table: the tag looked for, the form of its value and the key it is kept under. -/
structure Rule where
  tag : String
  literal : Literal
  key : AttributeKey
deriving DecidableEq, Repr

/-- What kind of node a component is. The first four are read from declarations, the others are
made when a graph is assembled. -/
inductive Kind where
  | generic
  | affine
  | batchNorm
  | tdnn
  | input
  | output
  | append
  | offset
  | replaceIndex
  | scale
  | splice
  | sum
deriving DecidableEq, Repr

namespace Kind

/-- The name of a kind. -/
def name : Kind → String
  | generic => "Generic"
  | affine => "Affine"
  | batchNorm => "BatchNorm"
  | tdnn => "Tdnn"
  | input => "Input"
  | output => "Output"
  | append => "Append"
  | offset => "Offset"
  | replaceIndex => "ReplaceIndex"
  | scale => "Scale"
  | splice => "Splice"
  | sum => "Sum"

/-- All kinds. -/
def all : List Kind :=
  [generic, affine, batchNorm, tdnn, input, output, append, offset, replaceIndex, scale, splice,
    sum]

/-- Whether components of this kind are made rather than read. -/
def isSynthesized : Kind → Bool
  | generic | affine | batchNorm | tdnn => false
  | _ => true

/-- The registered types and their kinds. -/
def registry : List (String × Kind) :=
  [("GeneralDropoutComponent", generic),
    ("NoOpComponent", generic),
    ("RectifiedLinearComponent", generic),
    ("LogSoftmaxComponent", generic),
    ("AffineComponent", affine),
    ("FixedAffineComponent", affine),
    ("LinearComponent", affine),
    ("NaturalGradientAffineComponent", affine),
    ("BatchNormComponent", batchNorm),
    ("TdnnComponent", tdnn)]

/-- The kind of a registered type. -/
def ofType? (typeName : String) : Option Kind :=
  registry.lookup typeName

/-- **The table of a kind.** Two tags may share a key: the matrix of an affine component has two
spellings. -/
def table : Kind → List Rule
  | generic =>
    [⟨"<Dim>", .int, .dim⟩,
      ⟨"<InputDim>", .int, .inputDim⟩,
      ⟨"<OutputDim>", .int, .outputDim⟩]
  | affine =>
    [⟨"<Params>", .matrix, .params⟩,
      ⟨"<LinearParams>", .matrix, .params⟩,
      ⟨"<BiasParams>", .floats, .bias⟩]
  | batchNorm =>
    [⟨"<Dim>", .int, .dim⟩,
      ⟨"<Epsilon>", .float, .epsilon⟩,
      ⟨"<TargetRms>", .float, .targetRms⟩,
      ⟨"<StatsMean>", .floats, .statsMean⟩,
      ⟨"<StatsVar>", .floats, .statsVar⟩]
  | tdnn =>
    [⟨"<TimeOffsets>", .ints, .timeOffsets⟩,
      ⟨"<LinearParams>", .matrix, .params⟩,
      ⟨"<BiasParams>", .floats, .bias⟩]
  | _ => []

/-- The rule for a tag. -/
def rule? (k : Kind) (tag : String) : Option Rule :=
  k.table.find? (fun r => r.tag = tag)

end Kind

end NnetText
