import InfoFlow.Scalar.Basic

namespace InfoFlow.Special

variable {α : Type} [Scalar α]

/-- The shift of the Lanczos series. -/
def lanczosShift : α := 10.900511

/-- The leading coefficient of the Lanczos series. -/
def lanczosFirst : α := 2.48574089138753565546e-5

/-- The further coefficients of the Lanczos series, the first of index 1. -/
def lanczosRest : List Float :=
  [1.05142378581721974210, -3.45687097222016235469, 4.51227709466894823700,
   -2.98285225323576655721, 1.05639711577126713077, -1.95428773191645869583e-1,
   1.70970543404441224307e-2, -5.71926117404305781283e-4, 4.63399473359905636708e-6,
   -2.71994908488607703910e-9]

/-- The Lanczos series with the denominators that `at` gives to the indices. -/
@[specialize]
def lanczosSum (denominator : α → α) : α :=
  (lanczosRest.foldl (fun (sum, i) c => (sum + Scalar.ofFloat c / denominator i, i + 1))
    (lanczosFirst, (1 : α))).1

def logPi : α := 1.1447298858494001741

/-- The logarithm of `2 * sqrt (e / pi)`. -/
def logTwoSqrtEOverPi : α := 0.62078223763524522234

/-- The logarithm of the gamma function, reflected below a half. -/
def lnGamma (x : α) : α :=
  if x < 0.5 then
    let s := lanczosSum fun i => i - x
    logPi - Scalar.log (Scalar.sin (Scalar.pi * x)) - Scalar.log s - logTwoSqrtEOverPi
      - (0.5 - x) * Scalar.log ((0.5 - x + lanczosShift) / Scalar.e)
  else
    let s := lanczosSum fun i => x + i - 1
    Scalar.log s + logTwoSqrtEOverPi
      + (x - 0.5) * Scalar.log ((x - 0.5 + lanczosShift) / Scalar.e)

/-- Relative accuracy at which the series and fractions below stop. -/
def tolerance : α := 0.000000000000001

/-- Below this logarithm an exponential is taken as 0. -/
def underflow : α := -709.78271289338399

/-- Terms of a convergent expansion that are looked at before the last one is accepted. -/
def terms : Nat := 1099511627776

/-- The series `1 + x / (a + 1) + x ^ 2 / ((a + 1) * (a + 2)) + …`. -/
def gammaSeries (x : α) : Nat → α → α → α → α
  | 0, _, _, sum => sum
  | n + 1, r, term, sum =>
    let r := r + 1
    let term := term * (x / r)
    let sum := sum + term
    if term / sum ≤ tolerance then sum else gammaSeries x n r term sum

/-- Two successive convergents of a continued fraction, as numerators and denominators, with the
running coefficients of the recurrence. -/
structure Convergents (α : Type) where
  y : α
  z : α
  c : α
  p1 : α
  p2 : α
  q1 : α
  q2 : α
  answer : α

namespace Convergents

/-- Start of the fraction of the upper incomplete gamma function. -/
def start (a x : α) : Convergents α :=
  let y := 1 - a
  let z := x + y + 1
  let p := x + 1
  let q := z * x
  ⟨y, z, 0, p, 1, q, x, p / q⟩

/-- The next convergent, as its numerator and denominator, and the recurrence moved on to it; large
numbers are scaled down for the steps to come. -/
def next (v : Convergents α) : α × α × Convergents α :=
  let y := v.y + 1
  let z := v.z + 2
  let c := v.c + 1
  let yc := y * c
  let p := v.p1 * z - v.p2 * yc
  let q := v.q1 * z - v.q2 * yc
  let big : α := 4503599627370496
  let small : α := 2.22044604925031308085e-16
  if big < Scalar.abs p then
    (p, q, ⟨y, z, c, p * small, v.p1 * small, q * small, v.q1 * small, v.answer⟩)
  else (p, q, ⟨y, z, c, p, v.p1, q, v.q1, v.answer⟩)

/-- Runs the recurrence until two answers agree; `isZero` tells the denominators to skip. -/
@[specialize]
def run (isZero : α → Bool) : Nat → Convergents α → α
  | 0, v => v.answer
  | n + 1, v =>
    let (p, q, w) := v.next
    if isZero q then run isZero n w
    else
      let r := p / q
      let error := Scalar.abs ((v.answer - r) / r)
      if error ≤ tolerance then r else run isZero n { w with answer := r }

end Convergents

/-- Lower regularized incomplete gamma function; a NaN outside of positive finite arguments. -/
def gammaLower (a x : α) : α :=
  if !(0 < a && a < Scalar.infinity && 0 < x && x < Scalar.infinity) then Scalar.nan
  else if Scalar.abs (a - 0) < 1.1102230246251565e-15 then 1
  else if Scalar.abs (x - 0) < 1.1102230246251565e-15 then 0
  else
    let ax := a * Scalar.log x - x - lnGamma a
    if ax < underflow then (if a < x then 1 else 0)
    else if x ≤ 1 || x ≤ a then
      Scalar.exp ax * gammaSeries x terms a 1 1 / a
    else 1 - Scalar.exp ax * (Convergents.start a x).run (· == 0) terms

/-- Upper regularized incomplete gamma function; a NaN outside of positive finite arguments. -/
def gammaUpper (a x : α) : α :=
  if !(0 < a && a < Scalar.infinity && 0 < x && x < Scalar.infinity) then Scalar.nan
  else if x < 1 || x ≤ a then 1 - gammaLower a x
  else
    let ax := a * Scalar.log x - x - lnGamma a
    if ax < underflow then (if a < x then 0 else 1)
    else
      (Convergents.start a x).run (Scalar.abs · ≤ Scalar.epsilon) terms * Scalar.exp ax

/-- Raises an argument to at least 12, collecting what the recurrence takes away. -/
def raiseDigamma : Nat → α → α → α × α
  | 0, result, z => (result, z)
  | n + 1, result, z => if z < 12 then raiseDigamma n (result - 1 / z) (z + 1) else (result, z)

/-- The derivative of the logarithm of the gamma function, at a positive number. -/
def digammaPositive (x : α) : α :=
  if x ≤ 1e-6 then -0.57721566490153286 - 1 / x + 1.6449340668482264365 * x
  else
    let (result, z) := raiseDigamma 13 0 x
    if 12 ≤ z then
      let r := 1 / z
      let result := result + (Scalar.log z - 0.5 * r)
      let r := r * r
      result - r * (1 / 12 - r * (1 / 120 - r * (1 / 252 - r * (1 / 240 - r * (1 / 132)))))
    else result

/-- The derivative of the logarithm of the gamma function; negative infinity at its poles. -/
def digamma (x : α) : α :=
  if x == -Scalar.infinity || Scalar.isNaN x then Scalar.nan
  else if x ≤ 0 && Scalar.isClose (Scalar.floor x) x then -Scalar.infinity
  else if x < 0 then
    digammaPositive (1 - x) + Scalar.pi / Scalar.tan (-Scalar.pi * x)
  else digammaPositive x

end InfoFlow.Special
