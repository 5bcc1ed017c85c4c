import InfoFlow.Random.Uniform
import InfoFlow.Special.Gamma

namespace InfoFlow.Random

variable {α σ : Type} [Scalar α] [RandomWords σ]

/-- A Cauchy draw of location 0 and scale 1. -/
def standardCauchy : Random σ α := do return Scalar.tan (Scalar.pi * (← unit))

/-! ### Poisson -/

/-- Coarse logarithm of the gamma function, for the acceptance of Poisson draws. -/
def coarseLnGamma (x : α) : α :=
  let coefficients : List Float :=
    [76.18009172947146, -86.50532032941677, 24.01409824083091, -1.231739572450155,
     0.1208650973866179e-2, -0.5395239384953e-5]
  let shifted := x + 5.5
  let log := (x + 0.5) * Scalar.log shifted - shifted
  let (series, _) := coefficients.foldl (fun (sum, denominator) c =>
    let denominator := denominator + 1
    (sum + Scalar.ofFloat c / denominator, denominator)) ((1.000000000190015 : α), x)
  log + Scalar.log (2.5066282746310005 * series / x)

/-- Counts how many uniforms can be multiplied before the product falls to the bound. -/
def poissonSmall (mean : α) : Drawing σ α :=
  let bound := Scalar.exp (-mean)
  let round (state : α × α) : Random σ ((α × α) ⊕ α) := do
    let (p, count) := state
    if bound < p then return .inl (p * (← unit), count + 1) else return .inr (count - 1)
  Drawing.iterate round (1, 0)

/-- Rejection from a Cauchy envelope. -/
def poissonLarge (mean : α) : Drawing σ α :=
  let logMean := Scalar.log mean
  let spread := Scalar.sqrt (2 * mean)
  let peak := mean * logMean - coarseLnGamma (1 + mean)
  let candidate : Drawing σ (Option (α × α)) := do
    let deviate ← Drawing.lift standardCauchy
    let x := spread * deviate + mean
    return if 0 ≤ x then some (deviate, x) else none
  let trial : Drawing σ (Option α) := do
    let (deviate, x) ← Drawing.untilAccepted candidate
    let x := Scalar.floor x
    let check := 0.9 * (1 + deviate * deviate)
      * Scalar.exp (x * logMean - coarseLnGamma (1 + x) - peak)
    return if (← Drawing.lift unit) ≤ check then some x else none
  Drawing.untilAccepted trial

def poisson (mean : α) : Drawing σ α :=
  if mean < 12 then poissonSmall mean else poissonLarge mean

/-! ### Geometric -/

/-- How many uniforms in a row satisfy a condition. -/
@[specialize]
def countWhile (goesOn : α → Bool) : Drawing σ Nat :=
  Drawing.iterate (fun count => do
    return if goesOn (← unit) then .inl (count + 1) else .inr count) 0

/-- A number of failures splits into blocks of `2 ^ bits`; the chance to fail through a block. -/
structure GeometricBlocks (α : Type) where
  bits : Nat
  blockFailure : α

/-- Squares the chance of failure until it is at most a half. -/
def geometricBlocks : Nat → Nat → α → GeometricBlocks α
  | 0, bits, chance => ⟨bits, chance⟩
  | n + 1, bits, chance =>
    if 0.5 < chance then geometricBlocks n (bits + 1) (chance * chance) else ⟨bits, chance⟩

/-- The blocks in which failures before a success of probability `p` are counted; none where they are
counted one by one. -/
def GeometricBlocks.ofSuccess (p : α) : Except Breakdown (Option (GeometricBlocks α)) :=
  if Scalar.ofFloat (2 / 3) ≤ p then .ok none
  else
    let blocks := geometricBlocks rounds 1 ((1 - p) * (1 - p))
    if 0.5 < blocks.blockFailure then .error .endless else .ok (some blocks)

/-- Failures before the first success, as a machine word. -/
def geometricFailures (p : α) : Option (GeometricBlocks α) → Drawing σ Nat
  | none => countWhile fun u => !(u ≤ p)
  | some blocks => do
    let d ← countWhile fun u => u < blocks.blockFailure
    let trial : Drawing σ (Option Nat) := do
      let m := (← Drawing.lift word).toNat % Nat.pow 2 blocks.bits
      let accept :=
        if m ≤ 2147483647 then Scalar.powNat (1 - p) m else Scalar.pow (1 - p) (Scalar.ofNat m)
      return if (← Drawing.lift unit) < accept then some m else none
    return (d <<< blocks.bits) % UInt64.size + (← Drawing.untilAccepted trial)

/-! ### Binomial -/

/-- Inversion: steps through the outcomes until their probabilities use up a uniform. -/
def binomialInversion (n : Nat) (p : α) : Drawing σ Nat := do
  let q := 1 - p
  let s := p / q
  let a := Scalar.ofNat (n + 1) * s
  let round (state : α × α × Nat) : Random σ ((α × α × Nat) ⊕ Nat) :=
    let (u, r, x) := state
    if r < u then pure (.inl (u - r, r * (a / Scalar.ofNat (x + 1) - s), x + 1))
    else pure (.inr x)
  let u ← Drawing.lift unit
  Drawing.iterate round (u, Scalar.powNat q n, 0)

/-- A hat over the binomial probabilities: a triangle, a parallelogram and two exponential tails,
with their accumulated areas `p1` to `p4`. -/
structure BinomialHat (α : Type) where
  count : Nat
  p : α
  q : α
  variance : α
  mode : Int
  centre : α
  left : α
  right : α
  c : α
  leftRate : α
  rightRate : α
  p1 : α
  p2 : α
  p3 : α
  p4 : α

/-- A number without its fraction, as a signed word. -/
def wholePart (x : α) : Except Breakdown Int :=
  if x < Scalar.ofNat (Nat.pow 2 63) then .ok (Scalar.toInt64 x).toInt else .error .wordOverflow

/-- A difference of signed words. -/
def wordDifference (x y : Int) : Except Breakdown Int :=
  if (x - y).natAbs < Nat.pow 2 63 then .ok (x - y) else .error .wordOverflow

namespace BinomialHat

def ofTrials (count : Nat) (p : α) : Except Breakdown (BinomialHat α) := do
  let n : α := Scalar.ofNat count
  let q := 1 - p
  let np := n * p
  let variance := np * q
  let peak := np + p
  let mode ← wholePart peak
  let p1 := Scalar.floor (2.195 * Scalar.sqrt variance - 4.6 * q) + 0.5
  let centre := Scalar.ofInt mode + 0.5
  let left := centre - p1
  let right := centre + p1
  let c := 0.134 + 20.5 / (15.3 + Scalar.ofInt mode)
  let p2 := p1 * (1 + 2 * c)
  let rate (a : α) : α := a * (1 + 0.5 * a)
  let leftRate := rate ((peak - left) / (peak - left * p))
  let rightRate := rate ((right - peak) / (right * q))
  let p3 := p2 + c / leftRate
  let p4 := p3 + c / rightRate
  return { count, p, q, variance, mode, centre, left, right, c, leftRate, rightRate, p1, p2, p3, p4 }

/-- Where a point under the hat falls: an outcome that is certain, or one with a height to test. -/
inductive Point (α : Type) where
  | certain (y : Int)
  | tested (y : Int) (height : α)
  | outside

def point (h : BinomialHat α) (u v : α) : Except Breakdown (Point α) := do
  if !(h.p1 < u) then return .certain (← wholePart (h.centre - h.p1 * v + u))
  else if !(h.p2 < u) then
    let x := h.left + (u - h.p1) / h.c
    let v := v * h.c + 1 - Scalar.abs (x - h.centre) / h.p1
    if 1 < v then return .outside else return .tested (← wholePart x) v
  else if !(h.p3 < u) then
    let y ← wholePart (h.left + Scalar.log v / h.leftRate)
    return if y < 0 then .outside else .tested y (v * ((u - h.p2) * h.leftRate))
  else
    let y ← wholePart (h.right - Scalar.log v / h.rightRate)
    return if 0 < y && h.count < y.natAbs then .outside
      else .tested y (v * ((u - h.p3) * h.rightRate))

/-- The probability of `y` relative to that of the mode, one factor per outcome in between. -/
def relativeMass (h : BinomialHat α) (y : Int) : α :=
  let s := h.p / h.q
  let a := s * (Scalar.ofNat h.count + 1)
  let factor (i : Int) : α := a / Scalar.ofInt i - s
  if h.mode < y then
    (y - h.mode).toNat.fold (fun k _ f => f * factor (h.mode + 1 + k)) 1
  else
    (h.mode - y).toNat.fold (fun k _ f => f / factor (y + 1 + k)) 1

/-- Remainder of Stirling's series for the logarithm of the factorial. -/
def stirling (a : α) : α :=
  let square := a * a
  (13860 - (462 - (132 - (99 - 140 / square) / square) / square) / square) / a / 166320

/-- Whether a logarithmic height is below that of `y`, by Stirling's formula. -/
def isBelowStirling (h : BinomialHat α) (y : Int) (height : α) : Except Breakdown Bool := do
  let n ← wholePart (Scalar.ofNat h.count : α)
  let x1 : α := Scalar.ofInt (y + 1)
  let f1 : α := Scalar.ofInt (h.mode + 1)
  let z : α := Scalar.ofInt (n + 1 - h.mode)
  let w : α := Scalar.ofInt (n - y + 1)
  let bound := h.centre * Scalar.log (f1 / x1)
    + (Scalar.ofNat h.count - Scalar.ofInt h.mode + 0.5) * Scalar.log (z / w)
    + Scalar.ofInt (y - h.mode) * Scalar.log (w * h.p / (x1 * h.q))
    + stirling f1 + stirling z - stirling x1 - stirling w
  return !(bound < height)

/-- Whether a height is at most the relative probability of `y`: directly near the mode and far in
the tails, elsewhere by a squeeze and then by Stirling's formula. -/
def accepts (h : BinomialHat α) (y : Int) (height : α) : Except Breakdown Bool := do
  let k := (← wordDifference y h.mode).natAbs
  let x : α := Scalar.ofNat k
  if !(20 < k && x < 0.5 * h.variance - 1) then return !(h.relativeMass y < height)
  else
    let rho := x / h.variance
      * ((x * (x / 3 + 0.625) + Scalar.ofFloat (1 / 6)) / h.variance + 0.5)
    let t := -0.5 * x * x / h.variance
    let log := Scalar.log height
    if log < t - rho then return true
    else if t + rho < log then return false
    else h.isBelowStirling y log

def trial (h : BinomialHat α) (wide narrow : FloatRange α) : Drawing σ (Option Int) := do
  let u ← Drawing.lift wide.draw
  let v ← Drawing.lift narrow.draw
  match ← h.point u v with
  | .certain y => return some y
  | .tested y height => return if ← h.accepts y height then some y else none
  | .outside => return none

/-- Rejection under the hat. -/
def draw (h : BinomialHat α) : Drawing σ Nat := do
  let wide ← FloatRange.halfOpen 0 h.p4
  let narrow ← FloatRange.halfOpen (0 : α) 1
  let y ← Drawing.untilAccepted (h.trial wide narrow)
  if y < 0 then throw .negativeCount
  return y.toNat

end BinomialHat

/-- Successes in `n` trials. The rarer of the two outcomes is counted. -/
def binomial (n : Nat) (p : α) : Drawing σ Nat := do
  if p == 0 then return 0
  if p == 1 then return n
  let rare := if p ≤ 0.5 then p else 1 - p
  let count ←
    if Scalar.ofNat n * rare < 10 && n ≤ 2147483647 then binomialInversion n rare
    else (← BinomialHat.ofTrials n rare).draw
  if rare == p then return count
  if n < count then throw .wordOverflow
  return n - count

end InfoFlow.Random
