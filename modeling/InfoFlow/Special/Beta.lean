import InfoFlow.Special.Gamma

namespace InfoFlow.Special

variable {α : Type} [Scalar α]

/-- The logarithm of the beta function; a NaN outside of positive arguments. -/
def lnBeta (a b : α) : α :=
  if a ≤ 0 || b ≤ 0 then Scalar.nan else lnGamma a + lnGamma b - lnGamma (a + b)

/-- Rounding unit at which the continued fraction stops. -/
def halfEpsilon : α := 1.1102230246251565e-16

/-- Replaces a vanishing denominator of the continued fraction. -/
def awayFromZero (x : α) : α :=
  let least : α := 2.2250738585072014e-308 / halfEpsilon
  if Scalar.abs x < least then least else x

/-- The two partial denominators and the value of a continued fraction that is evaluated from the
front. -/
structure Lentz (α : Type) where
  c : α
  d : α
  value : α

/-- One partial numerator: the new state, and the factor the value was multiplied by. -/
def Lentz.extend (v : Lentz α) (numerator : α) : Lentz α × α :=
  let d := awayFromZero (1 + numerator * v.d)
  let c := awayFromZero (1 + numerator / v.c)
  (⟨c, 1 / d, v.value⟩, 1 / d * c)

/-- The continued fraction of the incomplete beta function, from its `m`-th pair of terms on. -/
def betaFraction (a b x : α) : Nat → Nat → Lentz α → α
  | 0, _, v => v.value
  | fuel + 1, m, v =>
    let k : α := Scalar.ofNat m
    let k2 := k * 2
    let (v, _) := v.extend (k * (b - k) * x / ((a - 1 + k2) * (a + k2)))
    let v := { v with value := v.value * v.d * v.c }
    let (v, factor) := v.extend (-(a + k) * (a + b + k) * x / ((a + k2) * (a + 1 + k2)))
    let v := { v with value := v.value * factor }
    if Scalar.abs (factor - 1) ≤ halfEpsilon then v.value else betaFraction a b x fuel (m + 1) v

/-- The continued fraction with its first term, cut off after 140 pairs of terms. -/
def betaContinued (a b x : α) : α :=
  let d := 1 / awayFromZero (1 - (a + b) * x / (a + 1))
  betaFraction a b x 140 1 ⟨1, d, d⟩

/-- Regularized incomplete beta function; a NaN unless `a` and `b` are positive and `x` is in
`[0, 1]`. The argument is reflected to the side on which the fraction converges fast. -/
def betaRegularized (a b x : α) : α :=
  if a ≤ 0 || b ≤ 0 || !(0 ≤ x && x ≤ 1) then Scalar.nan
  else
    let factor :=
      if Scalar.abs x ≤ Scalar.epsilon || Scalar.isClose x 1 then 0
      else Scalar.exp (lnGamma (a + b) - lnGamma a - lnGamma b
        + a * Scalar.log x + b * Scalar.log (1 - x))
    if (a + 1) / (a + b + 2) ≤ x then 1 - factor * betaContinued b a (1 - x) / b
    else factor * betaContinued a b x / a

/-- The factorials that doubles can hold, by repeated multiplication. -/
def factorials : Array Float :=
  ((List.range 170).foldl (fun (acc, f) i =>
    let f := f * Float.ofNat (i + 1)
    (acc.push f, f)) (#[1], (1 : Float))).1

def lnFactorial (n : UInt64) : α :=
  match factorials[n.toNat]? with
  | some f => Scalar.log (Scalar.ofFloat f)
  | none => lnGamma (Scalar.ofUInt64 n + 1)

/-- The logarithm of a binomial coefficient; negative infinity above the diagonal. -/
def lnBinomial (n k : UInt64) : α :=
  if n < k then -Scalar.infinity else lnFactorial n - lnFactorial k - lnFactorial (n - k)

end InfoFlow.Special
