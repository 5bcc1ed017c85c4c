import InfoFlow.Belief.Range
import InfoFlow.Random.Uniform

namespace InfoFlow

namespace Belief

variable {α σ : Type} [Scalar α] [RandomWords σ]

/-- The smallest positive parameter that is drawn. -/
def minPositive : α := Scalar.ofFloat 0.0999755859375

/-- The smallest probability that is drawn. -/
def minProbability : α := 0.001

/-- The largest probability that is drawn. -/
def maxProbability : α := 0.99

/-- A number between two ends; the first one if they do not increase. -/
def uniform (low high : α) : Random σ α :=
  if low < high then (Random.FloatRange.closed low high).draw else return low

/-- An integer between two ends; the first one if they do not increase. -/
def integer (low high : α) : Random σ α := do
  let low := (Scalar.toInt64 (Scalar.ceil low)).toInt
  let high := (Scalar.toInt64 (Scalar.floor high)).toInt
  if low < high then return Scalar.ofInt (← Random.integerBetween low high)
  else return Scalar.ofInt low

/-- Two numbers in increasing order, from a draw that is made twice; none if they are equal. -/
def increasingPair (draw : Random σ α) : Random σ (Option (α × α)) := do
  let x ← draw
  let y ← draw
  let (a, b) := if x ≤ y then (x, y) else (y, x)
  return if b ≤ a then none else some (a, b)

/-- Parameter values of a family for a range, or none if the draw is rejected. -/
def drawValues (f : Family) (r : ValueRange α) : Random σ (Option (List α)) := do
  let spread := Scalar.max r.width minPositive
  let probability : Random σ α := uniform minProbability maxProbability
  let shape : Random σ α := uniform minPositive 40
  let location : Random σ α := uniform r.lower r.upper
  let scale : Random σ α := uniform minPositive spread
  let trials : Random σ α := integer (Scalar.max r.lower 1) (Scalar.max r.upper 1)
  let keep (mean : α) (values : List α) : Option (List α) :=
    if r.contains mean then some values else none
  match f with
  | .bernoulli => return some [← probability]
  | .beta => return some [← shape, ← shape]
  | .betaBinomial =>
    let n ← trials
    let a ← shape
    let b ← shape
    return keep (n * a / (a + b)) [n, a, b]
  | .binomial =>
    let n ← trials
    let p ← probability
    return keep (n * p) [n, p]
  | .cauchy => return some [← location, ← uniform minPositive 10]
  | .discreteUniform =>
    return (← increasingPair (integer r.lower r.upper)).map fun (a, b) => [a, b]
  | .exponential =>
    let rate ← uniform minPositive 50
    return keep (1 / rate) [rate]
  | .gamma =>
    let a ← shape
    let b ← shape
    return keep (a / b) [a, b]
  | .geometric =>
    let p ← probability
    return keep (1 / p) [p]
  | .laplace => return some [← location, ← uniform minPositive 50]
  | .normal => return some [← location, ← scale]
  | .poisson => return some [← uniform (Scalar.max r.lower minPositive) r.upper]
  | .studentT => return some [← scale, ← location, ← scale]
  | .truncatedNormal =>
    let mean ← location
    let deviation ← scale
    return (← increasingPair location).map fun (a, b) => [mean, deviation, a, b]
  | .uniform => return (← increasingPair location).map fun (a, b) => [a, b]
  | .categorical | .constant => return none

/-- A distribution of a family for a range, or none if the draw is rejected. -/
def drawDistribution (f : Family) (r : ValueRange α) : Random σ (Option (Distribution α)) := do
  return (← drawValues f r).bind fun values => (Distribution.build f values none).toOption

end Belief

end InfoFlow
