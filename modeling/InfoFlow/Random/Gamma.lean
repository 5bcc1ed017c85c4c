import InfoFlow.Random.Normal

namespace InfoFlow.Random

variable {α σ : Type} [Scalar α] [RandomWords σ]

/-- A gamma draw of a shape above 1: a cubed linear function of a normal draw, accepted by its
density, cheaply most of the time. -/
def gammaLarge (shape scale : α) : Drawing σ α :=
  let d := shape - Scalar.ofFloat (1 / 3)
  let c := 1 / Scalar.sqrt (9 * d)
  let trial : Drawing σ (Option α) := do
    let x ← Drawing.lift normal
    let root := 1 + c * x
    if root ≤ 0 then return none
    let v := root * root * root
    let u ← Drawing.lift openUnit
    let square := x * x
    if u < 1 - 0.0331 * square * square
        || Scalar.log u < 0.5 * square + d * (1 - v + Scalar.log v) then
      return some (d * v * scale)
    else return none
  Drawing.untilAccepted trial

/-- A gamma draw; below shape 1 it is one of a shape larger by 1, times a power of a uniform. -/
def gamma (shape scale : α) : Drawing σ α := do
  if shape == 1 then return (← Drawing.lift exponential) * (1 / (1 / scale))
  else if shape < 1 then
    let u ← Drawing.lift openUnit
    return (← gammaLarge (shape + 1) scale) * Scalar.pow u (1 / shape)
  else gammaLarge shape scale

def chiSquared (freedom : α) : Drawing σ α := do
  if freedom == 1 then
    let z ← Drawing.lift normal
    return z * z
  else gamma (0.5 * freedom) 2

def studentT (freedom : α) : Drawing σ α := do
  let z ← Drawing.lift normal
  return z * Scalar.sqrt (freedom / (← chiSquared freedom))

/-- What the rejection methods for beta draws work with: the smaller and the larger parameter in the
order of the method, and whether they trade places in the answer. -/
structure BetaOrder (α : Type) where
  a : α
  b : α
  isSwitched : Bool

namespace BetaOrder

/-- A draw of `a * (u / (1 - u)) ^ beta`, with the exponent's logarithm. -/
def odds (o : BetaOrder α) (beta u : α) : α × α :=
  let v := beta * Scalar.log (u / (1 - u))
  (v, o.a * Scalar.exp v)

/-- The beta variate of an odds variate. -/
def answer (o : BetaOrder α) (w : α) : α :=
  if o.isSwitched then o.b / (o.b + w)
  else if w == Scalar.infinity then 1
  else w / (o.b + w)

/-- One round of the method for two parameters above 1. -/
def trialLarge (o : BetaOrder α) : Drawing σ (Option α) := do
  let alpha := o.a + o.b
  let beta := Scalar.sqrt ((alpha - 2) / (2 * o.a * o.b - alpha))
  let gamma := o.a + 1 / beta
  let u1 ← Drawing.lift openUnit
  let u2 ← Drawing.lift openUnit
  let (v, w) := o.odds beta u1
  let z := u1 * u1 * u2
  let r := gamma * v - Scalar.log 4
  let s := o.a + r - w
  if 5 * z ≤ s + 1 + Scalar.log 5 then return some w
  let t := Scalar.log z
  if t ≤ s then return some w
  return if r + alpha * Scalar.log (alpha / (o.b + w)) < t then none else some w

/-- One round of the method for a parameter of at most 1; here `a` is the larger one. -/
def trialSmall (o : BetaOrder α) : Drawing σ (Option α) := do
  let alpha := o.a + o.b
  let beta := 1 / o.b
  let delta := 1 + o.a - o.b
  let kappa1 := delta * (Scalar.ofFloat (1 / 18 / 4) + Scalar.ofFloat (3 / 18 / 4) * o.b)
    / (o.a * beta - Scalar.ofFloat (14 / 18))
  let kappa2 := 0.25 + (0.5 + 0.25 / delta) * o.b
  let u1 ← Drawing.lift openUnit
  let u2 ← Drawing.lift openUnit
  let (v, w) := o.odds beta u1
  let accept (z : α) : Option α :=
    if alpha * (Scalar.log (alpha / (o.b + w)) + v) - Scalar.log 4 < Scalar.log z then none
    else some w
  if u1 < 0.5 then
    let y := u1 * u2
    let z := u1 * y
    return if kappa1 ≤ 0.25 * u2 + z - y then none else accept z
  else
    let z := u1 * u1 * u2
    return if z ≤ 0.25 then some w else if kappa2 ≤ z then none else accept z

end BetaOrder

def beta (a b : α) : Drawing σ α := do
  let (low, high, isSwitched) := if a < b then (a, b, false) else (b, a, true)
  if 1 < low then
    let order : BetaOrder α := ⟨low, high, isSwitched⟩
    return order.answer (← Drawing.untilAccepted order.trialLarge)
  else
    let order : BetaOrder α := ⟨high, low, !isSwitched⟩
    return order.answer (← Drawing.untilAccepted order.trialSmall)

end InfoFlow.Random
