import NnetText.Component.Basic

/-!
# Folding batch normalization

A normalization layer is described by the mean and the variance of each channel, a small number
added to the variance and the size the result should have. What a later stage needs is a scale
and a shift per channel. With `scale = rms · (var + ε) ^ (-1/2)` and `shift = -(scale · mean)`,
the value `scale · x + shift` is `rms · (x - mean) / √(var + ε)`. The two vectors take the places
of mean and variance under their keys.

The computation is the same whatever the numbers are, and takes its arithmetic as an argument.
-/

namespace NnetText

namespace BatchNorm

/-- Why the statistics of a layer cannot be folded. -/
inductive Fault where
  | missing (key : AttributeKey)
  | lengths (mean var : Nat)
deriving DecidableEq, Repr

namespace Fault

/-- The words of the fault. -/
def reason : Fault → String
  | missing key => "missing attribute " ++ key.name
  | lengths mean var =>
    "stats_mean has " ++ toString mean ++ " elements but stats_var has " ++ toString var

end Fault

/-- The statistics of a layer, one mean and one variance per channel. -/
structure Statistics (α : Type) where
  epsilon : α
  targetRms : α
  mean : List α
  var : List α
deriving DecidableEq, Repr

section

variable {α : Type} (A : Arithmetic α)

/-- The scale of a channel of the given variance. -/
def scale (epsilon targetRms var : α) : α :=
  A.mul targetRms (A.invSqrt (A.add var epsilon))

/-- The shift of a channel of the given scale and mean. -/
def shift (scale mean : α) : α :=
  A.neg (A.mul scale mean)

/-- The scales of all channels. -/
def Statistics.scales (s : Statistics α) : List α := s.var.map (scale A s.epsilon s.targetRms)

/-- The shifts of all channels. -/
def Statistics.shifts (s : Statistics α) : List α :=
  List.zipWith (shift A) (s.scales A) s.mean

end

/-- An attribute that has to be a number, in single precision. -/
def number (attributes : OrderedMap AttributeKey Value) (key : AttributeKey) :
    Except Fault Single :=
  match (attributes.get? key).bind Value.float? with
  | some x => .ok (x.convert .single)
  | none => .error (.missing key)

/-- An attribute that has to be a vector of numbers. -/
def vector (attributes : OrderedMap AttributeKey Value) (key : AttributeKey) :
    Except Fault (List Single) :=
  match (attributes.get? key).bind Value.floats? with
  | some xs => .ok xs
  | none => .error (.missing key)

/-- The statistics among the attributes; the first that is missing is the fault. -/
def statistics (attributes : OrderedMap AttributeKey Value) :
    Except Fault (Statistics Single) := do
  let epsilon ← number attributes .epsilon
  let targetRms ← number attributes .targetRms
  let mean ← vector attributes .statsMean
  let var ← vector attributes .statsVar
  if mean.length = var.length then .ok ⟨epsilon, targetRms, mean, var⟩
  else .error (.lengths mean.length var.length)

end BatchNorm

namespace Component

/-- **Puts scale and shift in the places of mean and variance.** The record goes with the result,
as it stands then. -/
def foldStatistics (A : Arithmetic Single) (c : Component) :
    Except ParseError Unit × Component :=
  match BatchNorm.statistics c.attributes with
  | .error fault => (.error (.inconsistentAttributes c.name fault.reason), c)
  | .ok s =>
    let shifted := c.setAttribute .statsVar (.floats (s.shifts A))
    (.ok (), shifted.setAttribute .statsMean (.floats (s.scales A)))

/-- The adjustment a kind asks for once all attributes are known. Only normalization layers have
one. -/
def adjust (A : Arithmetic Single) (c : Component) : Except ParseError Unit × Component :=
  if c.kind = .batchNorm then c.foldStatistics A else (.ok (), c)

end Component

end NnetText
