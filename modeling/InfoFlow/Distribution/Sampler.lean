import InfoFlow.Distribution.ClosedForm
import InfoFlow.Random.Counts
import InfoFlow.Random.Gamma

namespace InfoFlow

/-- A distribution prepared for drawing. What is drawn are numbers; a draw that cannot be produced is a
NaN. -/
inductive Sampler (α : Type) where
  /-- A success when a word lies below the threshold; always one without a threshold. -/
  | bernoulli (threshold : Option UInt64)
  | beta (a b : α)
  | betaBinomial (n : UInt64) (a b : α)
  | binomial (n : UInt64) (p : α)
  | cauchy (location scale : α)
  | discreteUniform (range : Random.IntegerRange)
  | exponential (rate : α)
  | gamma (shape scale : α)
  | geometric (p : α) (blocks : Option (Random.GeometricBlocks α))
  | laplace (location scale : α)
  | normal (mean deviation : α)
  | poisson (mean : α)
  | studentT (freedom location scale : α)
  /-- The inverse distribution function, between the masses below the two bounds. -/
  | truncatedNormal (mean deviation lowMass highMass lower upper : α)
  | uniform (range : Random.FloatRange α)
  /-- Running sums of all weights but the last, under a draw up to their total. -/
  | categorical (sums : List α) (range : Random.FloatRange α)
  | constant (value : α)

namespace Sampler

variable {α σ : Type} [Scalar α] [RandomWords σ]

/-- Running sums of all but the last weight. -/
def innerSums (weights : List α) : List α := (Categorical.runningSums weights).dropLast

/-- A parameter that the drawing method is not defined for. -/
def refused (parameter reason : String) : Except (Failure ParameterFault) (Sampler α) :=
  .error (.error ⟨parameter, reason⟩)

/-- Prepares an index draw in proportion to weights. -/
def ofWeights (weights : List α) : Except (Failure ParameterFault) (Sampler α) :=
  match weights with
  | [] => refused "p" "No weights provided in distribution"
  | _ =>
    if weights.any fun w => !(0 ≤ w) then refused "p" "A weight is invalid in distribution"
    else
      let total := (Categorical.runningSums weights).getLastD 0
      if total == 0 then refused "p" "All weights are zero in distribution"
      else (Random.FloatRange.halfOpen 0 total).mapError .breakdown |>.map
        (.categorical (innerSums weights))

def ofDistribution (d : Distribution α) : Except (Failure ParameterFault) (Sampler α) :=
  match d with
  | .bernoulli p =>
    .ok (.bernoulli (if p == 1 then none
      else some (Scalar.toUInt64 (p * Scalar.ofNat 18446744073709551616))))
  | .beta a b => .ok (.beta a b)
  | .betaBinomial n a b => .ok (.betaBinomial n a b)
  | .binomial n p => .ok (.binomial n p)
  | .cauchy location scale => .ok (.cauchy location scale)
  | .discreteUniform lower upper =>
    .ok (.discreteUniform ⟨lower.toInt, (upper.toInt - lower.toInt + 1).toNat⟩)
  | .exponential rate => .ok (.exponential rate)
  | .gamma shape rate => .ok (.gamma shape (1 / rate))
  | .geometric p =>
    (Random.GeometricBlocks.ofSuccess p).mapError .breakdown |>.map (.geometric p)
  | .laplace location scale => .ok (.laplace location scale)
  | .normal mean deviation => .ok (.normal mean deviation)
  | .poisson mean => .ok (.poisson mean)
  | .studentT freedom location scale =>
    if !(freedom == 1) && !(0 < 0.5 * freedom) then
      refused "nu" "degrees-of-freedom k is not positive in chi-squared distribution"
    else .ok (.studentT freedom location scale)
  | .truncatedNormal mean deviation lower upper =>
    .ok (.truncatedNormal mean deviation (Normal.cdf mean deviation lower)
      (Normal.cdf mean deviation upper) lower upper)
  | .uniform lower upper =>
    (Random.FloatRange.halfOpen lower upper).mapError .breakdown |>.map .uniform
  | .categorical weights => ofWeights weights.toList
  | .constant value => .ok (.constant value)

/-- Successes in `n` trials of a probability that may be unusable. -/
def drawBinomial (n : UInt64) (p : α) : Drawing σ α := do
  if 0 ≤ p && p ≤ 1 then return Scalar.ofNat (← Random.binomial n.toNat p)
  else return Scalar.nan

/-- The inverse of a normal distribution function, cut to two bounds. -/
def truncatedQuantile (mean deviation lower upper q : α) : Except Breakdown α :=
  if 0 ≤ q && q ≤ 1 then
    .ok (Scalar.min (Scalar.max (Normal.quantile mean deviation q) lower) upper)
  else .error .outsideUnit

/-- The trial of the first success, counted from 1 by a machine word. -/
def firstSuccess (failures : Nat) : Except Breakdown α :=
  if failures + 1 < UInt64.size then .ok (Scalar.ofNat (failures + 1)) else .error .wordOverflow

def draw (s : Sampler α) : Drawing σ α :=
  match s with
  | .bernoulli none => return 1
  | .bernoulli (some threshold) => do
    return if (← Drawing.lift Random.word) < threshold then 1 else 0
  | .beta a b => Random.beta a b
  | .betaBinomial n a b => do drawBinomial n (← Random.beta a b)
  | .binomial n p => drawBinomial n p
  | .cauchy location scale => do return location + scale * (← Drawing.lift Random.standardCauchy)
  | .discreteUniform range => do return Scalar.ofInt (← Drawing.lift range.draw)
  | .exponential rate => do return (← Drawing.lift Random.exponential) * (1 / rate)
  | .gamma shape scale => Random.gamma shape scale
  | .geometric p blocks => do firstSuccess (← Random.geometricFailures p blocks)
  | .laplace location scale => do
    let u : α := (← Drawing.lift Random.unit) - 0.5
    let sign : α := if u < 0 then -1 else 1
    return location - scale * sign * Scalar.log (1 - 2 * Scalar.abs u)
  | .normal mean deviation => do return mean + deviation * (← Drawing.lift Random.normal)
  | .poisson mean => Random.poisson mean
  | .studentT freedom location scale => do
    return location + scale * (← Random.studentT freedom)
  | .truncatedNormal mean deviation lowMass highMass lower upper => do
    let q := lowMass + (highMass - lowMass) * (← Drawing.lift Random.unit)
    truncatedQuantile mean deviation lower upper q
  | .uniform range => Drawing.lift range.draw
  | .categorical sums range => do
    let x ← Drawing.lift range.draw
    return Scalar.ofNat (sums.takeWhile (· ≤ x)).length
  | .constant value => return value

end Sampler

end InfoFlow
