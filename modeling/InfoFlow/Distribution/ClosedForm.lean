import InfoFlow.Distribution.Basic
import InfoFlow.Special.Beta

namespace InfoFlow

open Special

variable {α : Type} [Scalar α]

/-! ### Trials -/

namespace Binomial

/-- Log-probability of `k` successes in `n` trials; a probability of 0 or 1 up to rounding leaves one
outcome. -/
def lnMass (n : UInt64) (p : α) (k : UInt64) : α :=
  let certain (b : Bool) : α := if b then 0 else -Scalar.infinity
  if n < k then -Scalar.infinity
  else if Scalar.abs p ≤ Scalar.epsilon then certain (k == 0)
  else if Scalar.isClose p 1 then certain (k == n)
  else lnBinomial n k + Scalar.ofUInt64 k * Scalar.log p
    + Scalar.ofUInt64 (n - k) * Scalar.log (1 - p)

def cdf (n : UInt64) (p : α) (k : UInt64) : α :=
  if n ≤ k then 1
  else betaRegularized (Scalar.ofUInt64 (n - k)) (Scalar.ofUInt64 k + 1) (1 - p)

def entropy (n : UInt64) (p : α) : α :=
  if Scalar.abs p ≤ Scalar.epsilon || Scalar.isClose p 1 then 0
  else (n.toNat + 1).fold (fun k _ sum =>
    let m := Scalar.exp (lnMass n p k.toUInt64)
    sum - m * Scalar.log m) 0

end Binomial

namespace Geometric

/-- Log-probability that the first success comes with trial `k`. -/
def lnMass (p : α) (k : UInt64) : α :=
  if k == 0 then -Scalar.infinity
  else if Scalar.isClose p 1 then (if k == 1 then 0 else -Scalar.infinity)
  else Scalar.ofUInt64 (k - 1) * Scalar.log (1 - p) + Scalar.log p

def cdf (p : α) (k : UInt64) : α :=
  if k == 0 then 0
  else -Scalar.expMinusOne (Scalar.logOnePlus (-p) * Scalar.ofUInt64 k)

def entropy (p : α) : α :=
  let inverse := 1 / p
  let base := Scalar.log 2
  let failures := -inverse * (Scalar.log (1 - p) / base)
  failures + Scalar.log (inverse - 1) / base

end Geometric

/-! ### Whole numbers -/

namespace DiscreteUniform

def lnMass (lower upper k : Int64) : α :=
  if lower ≤ k && k ≤ upper then -Scalar.log (Scalar.ofInt64 (upper - lower + 1))
  else -Scalar.infinity

def cdf (lower upper k : Int64) : α :=
  if k < lower then 0
  else if upper ≤ k then 1
  else
    let low : α := Scalar.ofInt64 lower
    let answer := (Scalar.ofInt64 k - low + 1) / (Scalar.ofInt64 upper - low + 1)
    if 1 < answer then 1 else answer

end DiscreteUniform

namespace Categorical

/-- Running sums of the weights. -/
def runningSums (weights : List α) : List α :=
  (weights.foldl (fun (sums, total) w =>
    let total := total + w
    (total :: sums, total)) ([], 0)).1.reverse

/-- The sum of all weights. -/
def total (weights : List α) : α := Scalar.sum weights

def mass (weights : List α) (k : UInt64) : α :=
  match weights[k.toNat]? with
  | some w => w / total weights
  | none => 0

def cdf (weights : List α) (k : UInt64) : α :=
  match (runningSums weights)[k.toNat]? with
  | some s => s / total weights
  | none => 1

/-- The weights with their indices, as numbers. -/
def indexed (weights : List α) : List (α × α) :=
  weights.zipIdx.map fun (w, i) => (w / total weights, Scalar.ofNat i)

def mean (weights : List α) : α :=
  (indexed weights).foldl (fun sum (w, i) => sum + i * w) 0

def variance (weights : List α) : α :=
  let mu := mean weights
  (indexed weights).foldl (fun sum (w, i) =>
    let r := i - mu
    sum + r * r * w) 0

def entropy (weights : List α) : α :=
  -Scalar.sum (((indexed weights).filter fun (w, _) => 0 < w).map fun (w, _) => w * Scalar.log w)

end Categorical

namespace Poisson

def lnMass (mean : α) (k : UInt64) : α :=
  -mean + Scalar.ofUInt64 k * Scalar.log mean - lnFactorial k

def cdf (mean : α) (k : UInt64) : α := gammaUpper (Scalar.ofUInt64 k + 1) mean

def entropy (mean : α) : α :=
  0.5 * Scalar.log (2 * Scalar.pi * Scalar.e * mean) - 1 / (12 * mean) - 1 / (24 * mean * mean)
    - 19 / (360 * mean * mean * mean)

end Poisson

/-! ### Real numbers -/

namespace Beta

def lnDensity (a b x : α) : α :=
  if !(0 ≤ x && x ≤ 1) then -Scalar.infinity
  else if Scalar.isClose a 1 && Scalar.isClose b 1 then 0
  else
    let scale := lnGamma (a + b) - lnGamma a - lnGamma b
    let low :=
      if Scalar.isClose a 1 && Scalar.abs x ≤ Scalar.epsilon then 0
      else if Scalar.abs x ≤ Scalar.epsilon then -Scalar.infinity
      else (a - 1) * Scalar.log x
    let high :=
      if Scalar.isClose b 1 && Scalar.isClose x 1 then 0
      else if Scalar.isClose x 1 then -Scalar.infinity
      else (b - 1) * Scalar.log (1 - x)
    scale + low + high

def cdf (a b x : α) : α :=
  if x < 0 then 0
  else if 1 ≤ x then 1
  else if Scalar.isClose a 1 && Scalar.isClose b 1 then x
  else betaRegularized a b x

def variance (a b : α) : α := a * b / ((a + b) * (a + b) * (a + b + 1))

def entropy (a b : α) : α :=
  lnBeta a b - (a - 1) * digamma a - (b - 1) * digamma b + (a + b - 2) * digamma (a + b)

end Beta

namespace Cauchy

def lnDensity (location scale x : α) : α :=
  -Scalar.log (Scalar.pi * scale
    * (1 + (x - location) / scale * ((x - location) / scale)))

def cdf (location scale x : α) : α :=
  1 / Scalar.pi * Scalar.atan ((x - location) / scale) + 0.5

end Cauchy

namespace Exponential

def lnDensity (rate x : α) : α :=
  if x < 0 then -Scalar.infinity else Scalar.log rate - rate * x

def cdf (rate x : α) : α := if x < 0 then 0 else 1 - Scalar.exp (-rate * x)

end Exponential

namespace Gamma

def lnDensity (shape rate x : α) : α :=
  if x < 0 then -Scalar.infinity
  else if Scalar.isClose shape 1 then Scalar.log rate - rate * x
  else if Scalar.isInfinite x then -Scalar.infinity
  else shape * Scalar.log rate + (shape - 1) * Scalar.log x - rate * x - lnGamma shape

def cdf (shape rate x : α) : α :=
  if x ≤ 0 then 0
  else if Scalar.isInfinite x then 1
  else gammaLower shape (x * rate)

def entropy (shape rate : α) : α :=
  shape - Scalar.log rate + lnGamma shape + (1 - shape) * digamma shape

end Gamma

namespace Laplace

def lnDensity (location scale x : α) : α :=
  Scalar.log (Scalar.exp (-Scalar.abs (x - location) / scale) / (2 * scale))

def cdf (location scale x : α) : α :=
  let y := Scalar.exp (-Scalar.abs (x - location) / scale) / 2
  if location ≤ x then 1 - y else y

end Laplace

namespace Normal

def lnDensity (mean deviation x : α) : α :=
  let d := (x - mean) / deviation
  let core := -0.5 * d * d
  core - 0.91893853320467274178 - Scalar.log deviation

def cdf (mean deviation x : α) : α :=
  0.5 * erfc ((mean - x) / (deviation * Scalar.sqrt2))

/-- The number below which the distribution has mass `q`, for `q` in `[0, 1]`. -/
def quantile (mean deviation q : α) : α :=
  mean - deviation * Scalar.sqrt2 * erfcInverse (2 * q)

end Normal

namespace StudentT

def lnDensity (freedom location scale x : α) : α :=
  if Scalar.isInfinite x then -Scalar.infinity
  else if 1e8 ≤ freedom then Normal.lnDensity location scale x
  else
    let d := (x - location) / scale
    lnGamma ((freedom + 1) / 2) - 0.5 * ((freedom + 1) * Scalar.log (1 + d * d / freedom))
      - lnGamma (freedom / 2) - 0.5 * Scalar.log (freedom * Scalar.pi) - Scalar.log scale

def cdf (freedom location scale x : α) : α :=
  let k := (x - location) / scale
  let h := freedom / (freedom + k * k)
  let tail := 0.5 * betaRegularized (freedom / 2) 0.5 h
  if x ≤ location then tail else 1 - tail

def variance? (freedom scale : α) : Option α :=
  if 2 < freedom then some (freedom * scale * scale / (freedom - 2)) else none

def entropy (freedom scale : α) : α :=
  let result := (freedom + 1) / 2 * (digamma ((freedom + 1) / 2) - digamma (freedom / 2))
    + Scalar.log (Scalar.sqrt freedom * Scalar.exp (lnBeta (freedom / 2) 0.5))
  result + -Scalar.log scale

end StudentT

namespace Uniform

def lnDensity (lower upper x : α) : α :=
  if x < lower || upper < x then -Scalar.infinity else -Scalar.log (upper - lower)

def cdf (lower upper x : α) : α :=
  if x ≤ lower then 0
  else if upper ≤ x then 1
  else (x - lower) / (upper - lower)

end Uniform

/-! ### By distribution -/

namespace Distribution

/-- Whether there is a log-density in closed form. A categorical distribution has none if all of its
weights vanished when they were normalized. -/
def hasClosedForm : Distribution α → Bool
  | .betaBinomial .. | .truncatedNormal .. | .constant _ => false
  | .categorical weights =>
    weights.all (fun w => !(w < 0) && !Scalar.isNaN w) && !(Scalar.sum weights.toList == 0)
  | _ => true

/-- Log-mass of a counting family at the whole number `k`. -/
def closedLnMass (d : Distribution α) (k : UInt64) : α :=
  match d with
  | .bernoulli p => Binomial.lnMass 1 p k
  | .binomial n p => Binomial.lnMass n p k
  | .geometric p => Geometric.lnMass p k
  | .poisson mean => Poisson.lnMass mean k
  | .categorical weights => Scalar.log (Categorical.mass weights.toList k)
  | _ => -Scalar.infinity

/-- Log-density by the closed form, and log-mass for whole numbers. -/
def closedLnDensity (d : Distribution α) (x : α) : α :=
  match d with
  | .discreteUniform lower upper =>
    if Scalar.isInteger x then DiscreteUniform.lnMass lower upper (Scalar.toInt64 x)
    else -Scalar.infinity
  | .beta a b => Beta.lnDensity a b x
  | .cauchy location scale => Cauchy.lnDensity location scale x
  | .exponential rate => Exponential.lnDensity rate x
  | .gamma shape rate => Gamma.lnDensity shape rate x
  | .laplace location scale => Laplace.lnDensity location scale x
  | .normal mean deviation => Normal.lnDensity mean deviation x
  | .studentT freedom location scale => StudentT.lnDensity freedom location scale x
  | .uniform lower upper => Uniform.lnDensity lower upper x
  | _ =>
    if x < 0 || !Scalar.isInteger x then -Scalar.infinity else d.closedLnMass (Scalar.toUInt64 x)

/-- Distribution function of a counting family at the whole number `k`. -/
def closedCount (d : Distribution α) (k : UInt64) : α :=
  match d with
  | .bernoulli p => Binomial.cdf 1 p k
  | .binomial n p => Binomial.cdf n p k
  | .geometric p => Geometric.cdf p k
  | .poisson mean => Poisson.cdf mean k
  | .categorical weights => Categorical.cdf weights.toList k
  | _ => Scalar.nan

/-- Distribution function by the closed form. -/
def closedCdf (d : Distribution α) (x : α) : α :=
  match d with
  | .discreteUniform lower upper =>
    DiscreteUniform.cdf lower upper (Scalar.toInt64 (Scalar.floor x))
  | .beta a b => Beta.cdf a b x
  | .cauchy location scale => Cauchy.cdf location scale x
  | .exponential rate => Exponential.cdf rate x
  | .gamma shape rate => Gamma.cdf shape rate x
  | .laplace location scale => Laplace.cdf location scale x
  | .normal mean deviation => Normal.cdf mean deviation x
  | .studentT freedom location scale => StudentT.cdf freedom location scale x
  | .uniform lower upper => Uniform.cdf lower upper x
  | _ => if x < 0 then 0 else d.closedCount (Scalar.toUInt64 (Scalar.floor x))

/-- Mean, where it exists and has a closed form. -/
def mean? : Distribution α → Option α
  | .bernoulli p => some (p * Scalar.ofUInt64 1)
  | .beta a b => some (a / (a + b))
  | .binomial n p => some (p * Scalar.ofUInt64 n)
  | .discreteUniform lower upper => some (Scalar.ofInt64 (lower + upper) / 2)
  | .exponential rate => some (1 / rate)
  | .gamma shape rate => some (shape / rate)
  | .geometric p => some (1 / p)
  | .laplace location _ => some location
  | .normal mean _ => some mean
  | .poisson mean => some mean
  | .studentT freedom location _ => if freedom ≤ 1 then none else some location
  | .uniform lower upper => some ((lower + upper) / 2)
  | .categorical weights => some (Categorical.mean weights.toList)
  | .betaBinomial .. | .cauchy .. | .truncatedNormal .. | .constant _ => none

/-- Variance, where it exists and has a closed form. -/
def variance? : Distribution α → Option α
  | .bernoulli p => some (p * (1 - p) * Scalar.ofUInt64 1)
  | .beta a b => some (Beta.variance a b)
  | .binomial n p => some (p * (1 - p) * Scalar.ofUInt64 n)
  | .discreteUniform lower upper =>
    let width : α := Scalar.ofInt64 (upper - lower)
    some (((width + 1) * (width + 1) - 1) / 12)
  | .exponential rate => some (1 / (rate * rate))
  | .gamma shape rate => some (shape / (rate * rate))
  | .geometric p => some ((1 - p) / (p * p))
  | .laplace _ scale => some (2 * scale * scale)
  | .normal _ deviation => some (deviation * deviation)
  | .poisson mean => some mean
  | .studentT freedom _ scale => StudentT.variance? freedom scale
  | .uniform lower upper => some ((upper - lower) * (upper - lower) / 12)
  | .categorical weights => some (Categorical.variance weights.toList)
  | .betaBinomial .. | .cauchy .. | .truncatedNormal .. | .constant _ => none

/-- Entropy in nats, where it has a closed form. -/
def entropy? : Distribution α → Option α
  | .bernoulli p => some (Binomial.entropy 1 p)
  | .beta a b => some (Beta.entropy a b)
  | .binomial n p => some (Binomial.entropy n p)
  | .cauchy _ scale => some (Scalar.log (4 * Scalar.pi * scale))
  | .discreteUniform lower upper =>
    some (Scalar.log (Scalar.ofInt64 (upper - lower) + 1))
  | .exponential rate => some (1 - Scalar.log rate)
  | .gamma shape rate => some (Gamma.entropy shape rate)
  | .geometric p => some (Geometric.entropy p)
  | .laplace _ scale => some (Scalar.log (2 * scale) + 1)
  | .normal _ deviation => some (Scalar.log deviation + 1.4189385332046727418)
  | .poisson mean => some (Poisson.entropy mean)
  | .studentT freedom _ scale => some (StudentT.entropy freedom scale)
  | .uniform lower upper => some (Scalar.log (upper - lower))
  | .categorical weights => some (Categorical.entropy weights.toList)
  | .betaBinomial .. | .truncatedNormal .. | .constant _ => none

end Distribution

end InfoFlow
