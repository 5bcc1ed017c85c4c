import InfoFlow.Belief.Range

namespace InfoFlow

/-- A generator whose candidates do not cover enough. -/
structure InsufficientCoverage where
  generator : String
  covered : Nat
  required : Nat
  deriving Repr, DecidableEq

def InsufficientCoverage.message (e : InsufficientCoverage) : String :=
  s!"generator `{e.generator}` covers {e.covered} points/bins, at least {e.required} are required"

variable {α : Type} [Scalar α]

/-- The part of a range where points can hold some mass: what lies between the quantiles of half of
it at both ends. Nothing is left of a range that does not meet it. -/
def massWindow (d : Distribution α) (r : ValueRange α) (floor : α) : ValueRange α :=
  let first := d.quantile (0.5 * floor)
  let last := d.quantile (1 - 0.5 * floor)
  let lower := if Scalar.isNaN first then r.lower else Scalar.max first r.lower
  let upper := if Scalar.isNaN last then r.upper else Scalar.min last r.upper
  if lower ≤ upper then ⟨lower, upper⟩ else ⟨1, 0⟩

/-- The integers of a range that can be covered, up to the number that the policy allows. -/
def candidatePoints (d : Distribution α) (r : ValueRange α) (policy : CoveragePolicy α) :
    List Int :=
  (massWindow d r policy.massFloor).integers policy.maxPoints.toNat

/-- Whether a point holds enough mass. -/
def isCoveredPoint (d : Distribution α) (policy : CoveragePolicy α) (k : Int) : Bool :=
  policy.massFloor ≤ Scalar.exp (d.lnDensity (Scalar.ofInt k))

/-- How many points or bins of a range a distribution covers: integers if it is discrete, else bins,
which hold equal mass under a reference or have equal width without one. -/
def coverage (d : Distribution α) (r : ValueRange α) (reference : Option (Distribution α))
    (policy : CoveragePolicy α) : Nat :=
  if d.isDiscrete then (candidatePoints d r policy).countP (isCoveredPoint d policy)
  else (r.continuousBins reference policy.minimum.toNat).countP fun (a, b) =>
    policy.massFloor ≤ d.mass a b

/-- The most that a distribution of a family could cover. -/
def maxCoverage (f : Family) (r : ValueRange α) (reference : Option (Distribution α))
    (policy : CoveragePolicy α) : Nat :=
  let support : Support α := Support.ofFamily f
  if f.isDiscrete then
    let shared : ValueRange α :=
      ⟨Scalar.max r.lower support.lower, Scalar.min r.upper support.upper⟩
    (Scalar.toUInt64 (Scalar.min shared.integerCount (Scalar.ofUInt64 policy.maxPoints))).toNat
  else (r.continuousBins reference policy.minimum.toNat).countP fun (a, b) =>
    support.lower < b && a < support.upper

end InfoFlow
