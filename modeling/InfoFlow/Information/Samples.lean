import InfoFlow.Information.Entropy
import InfoFlow.Information.Estimator
import InfoFlow.Information.NearestNeighbor
import InfoFlow.Information.RowIds

namespace InfoFlow

/-- Samples of a random vector, one per row. -/
structure Samples (α : Type) where
  values : Matrix α
  isDiscrete : Bool

variable {α : Type} [Scalar α]

namespace Samples

/-- Samples that are discrete if all their numbers are whole. -/
def detect (values : Matrix α) : Samples α := ⟨values, values.isInteger⟩

def size (s : Samples α) : Nat := s.values.size

/-- The first `n` samples. -/
def take (s : Samples α) (n : Nat) : Samples α := { s with values := s.values.take n }

/-- A symbol for each sample. -/
def ids (s : Samples α) : List UInt64 := s.values.rowIds

end Samples

/-- Checks that two sides are aligned and have enough samples. -/
def checkSizes (secret output : Nat) (p : EstimatorParams) : Except LeakageError Unit := do
  if secret ≠ output then throw (.lengthMismatch secret output)
  let required := p.sampleFloor.toNat
  if secret < required then throw (.insufficientSamples secret required)

/-- The two sides of a mixed estimate: the continuous one, and the one that labels. The secret labels
unless it is the output alone that is discrete. -/
def mixedSides (secret output : Samples α) : Samples α × Samples α :=
  if output.isDiscrete && !secret.isDiscrete then (secret, output) else (output, secret)

/-- Estimate of a resolved estimator, in nats, from a stream of noise. -/
def estimateNatsFrom {σ : Type} [RandomWords σ] (noise : σ) (estimator : Estimator) (k : Nat)
    (secret output : Samples α) : α :=
  match estimator with
  | .discrete => plugIn secret.ids output.ids
  | .continuous =>
    let (x, noise) := (prepare secret.values).run noise
    let (y, _) := (prepare output.values).run noise
    kraskov x y k
  | .mixed | .auto =>
    let (continuous, labels) := mixedSides secret output
    let (c, _) := (prepare continuous.values).run noise
    ross c labels.ids k

/-- Estimate of the mutual information with sizes that have been checked, and the estimator used. It
is never negative, and 0 when either side is constant. -/
def estimate (secret output : Samples α) (p : EstimatorParams) : α × Estimator :=
  let estimator := p.estimator.resolve secret.isDiscrete output.isDiscrete
  if secret.values.isConstant || output.values.isConstant then (0, estimator)
  else
    let nats := estimateNatsFrom (Xoshiro.ofSeed p.seed) estimator p.neighbors.toNat secret output
    (p.units.ofNats (Scalar.max nats 0), estimator)

/-- Estimate of the mutual information between two aligned sets of samples, in the units of the
parameters. -/
def mutualInformation (secret output : Samples α) (p : EstimatorParams) :
    Except LeakageError α := do
  p.validate
  checkSizes secret.size output.size p
  return (estimate secret output p).1

end InfoFlow
