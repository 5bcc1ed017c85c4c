import InfoFlow.Distribution.ClosedForm

namespace InfoFlow.Distribution

open Special

variable {α : Type} [Scalar α]

/-- Log-density of a normal distribution. -/
def normalLnDensity (x mean deviation : α) : α :=
  let z := (x - mean) / deviation
  let core := -0.5 * z * z
  core - Scalar.log deviation - 0.5 * Scalar.log (2 * Scalar.pi)

/-- Log-density, or log-mass of whole numbers; negative infinity outside of the support. -/
def lnDensity (d : Distribution α) (x : α) : α :=
  if Scalar.isNaN x || !d.support.contains x then -Scalar.infinity
  else match d with
    | .bernoulli p => if x == 1 then Scalar.log p else Scalar.log (1 - p)
    | .beta a b => Scalar.mulLog (a - 1) x + Scalar.mulLog (b - 1) (1 - x) - lnBeta a b
    | .betaBinomial n a b =>
      let k := Scalar.toUInt64 x
      lnBinomial n k + lnBeta (x + a) (Scalar.ofUInt64 (n - k) + b) - lnBeta a b
    | .binomial n p =>
      let k := Scalar.toUInt64 x
      lnBinomial n k + Scalar.mulLog x p + Scalar.mulLog (Scalar.ofUInt64 (n - k)) (1 - p)
    | .cauchy location scale => Cauchy.lnDensity location scale x
    | .discreteUniform lower upper => -Scalar.log (Scalar.ofInt64 (upper - lower + 1))
    | .exponential rate => Scalar.log rate - rate * x
    | .gamma shape rate =>
      shape * Scalar.log rate - lnGamma shape + Scalar.mulLog (shape - 1) x - rate * x
    | .geometric p => Scalar.mulLog (x - 1) (1 - p) + Scalar.log p
    | .laplace location scale =>
      -Scalar.log (2 * scale) - Scalar.abs (x - location) / scale
    | .normal mean deviation => normalLnDensity x mean deviation
    | .poisson mean => x * Scalar.log mean - mean - lnGamma (x + 1)
    | .studentT freedom location scale =>
      let z := (x - location) / scale
      lnGamma ((freedom + 1) / 2) - lnGamma (freedom / 2) - 0.5 * Scalar.log (freedom * Scalar.pi)
        - Scalar.log scale - (freedom + 1) / 2 * Scalar.log (1 + z * z / freedom)
    | .truncatedNormal mean deviation lower upper =>
      normalLnDensity x mean deviation - Scalar.log (normalMass mean deviation lower upper)
    | .uniform lower upper => -Scalar.log (upper - lower)
    | .categorical weights => Scalar.log (weights.getD (Scalar.toUInt64 x).toNat 0)
    | .constant value => if x == value then 0 else -Scalar.infinity

/-- The probability of a value that is at most `x`. -/
def cdf (d : Distribution α) (x : α) : α :=
  if Scalar.isNaN x then Scalar.nan
  else if x < d.support.lower then 0
  else if d.support.upper ≤ x then 1
  else match d with
    | .truncatedNormal mean deviation lower upper =>
      let low := normalCdf ((lower - mean) / deviation)
      let mass := normalCdf ((upper - mean) / deviation) - low
      Scalar.min (Scalar.max ((normalCdf ((x - mean) / deviation) - low) / mass) 0) 1
    | .betaBinomial .. =>
      let count := (Scalar.toUInt64 (Scalar.floor x)).toNat + 1
      Scalar.min (count.fold (fun k _ sum => sum + Scalar.exp (d.lnDensity (Scalar.ofNat k))) 0) 1
    | .constant _ => 1
    | _ => if d.hasClosedForm then d.closedCdf x else Scalar.nan

/-- The probability of a value between two ends, both included. -/
def mass (d : Distribution α) (lower upper : α) : α :=
  if upper < lower then 0
  else if d.isDiscrete then
    Scalar.max (d.cdf (Scalar.floor upper) - d.cdf (Scalar.ceil lower - 1)) 0
  else Scalar.max (d.cdf upper - d.cdf lower) 0

/-- Doubles a bound while it is finite and on the wrong side. -/
@[specialize]
def widen (isWrong : α → Bool) : Nat → α → α
  | 0, bound => bound
  | n + 1, bound =>
    if Scalar.isFinite bound && isWrong bound then widen isWrong n (bound * 2) else bound

/-- Doublings after which every bound is infinite. -/
def doublings : Nat := 1100

/-- Halvings of the interval around a quantile. -/
def halvings : Nat := 200

/-- Halves the interval from `lo` to `hi` until its ends are at most two numbers apart; answers its
upper end. -/
@[specialize]
def bisect (isBelow : α → Bool) : Nat → α → α → α
  | 0, _, hi => hi
  | n + 1, lo, hi =>
    if Scalar.isWithinSteps 2 lo hi then hi
    else
      let mid := 0.5 * (lo + hi)
      if isBelow mid then bisect isBelow n mid hi else bisect isBelow n lo mid

/-- The ends between which a quantile is looked for: those of the support, infinite ones replaced by
the first power of two beyond the quantile. -/
def bracket (d : Distribution α) (q : α) : α × α :=
  let lower := d.support.lower
  let upper := d.support.upper
  let lo := if Scalar.isInfinite lower then widen (fun b => q < d.cdf b) doublings (-1) else lower
  let hi :=
    if Scalar.isInfinite upper then
      widen (fun b => d.cdf b < q) doublings (Scalar.max (Scalar.abs lo) 1)
    else upper
  (lo, hi)

/-- The smallest number whose distribution function reaches `q`, found by bisection. -/
def quantile (d : Distribution α) (q : α) : α :=
  if q ≤ 0 then d.support.lower
  else if 1 ≤ q then d.support.upper
  else
    let (lo, hi) := d.bracket q
    let hi := bisect (fun x => d.cdf x < q) halvings lo hi
    if !d.isDiscrete then hi
    else if q ≤ d.cdf (Scalar.floor hi) then Scalar.floor hi
    else Scalar.ceil hi

end InfoFlow.Distribution
