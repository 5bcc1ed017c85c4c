import InfoFlow.Variable

namespace InfoFlow

/-- What a candidate distribution has to cover. Counts are machine words. -/
structure CoveragePolicy (α : Type) where
  /-- Points or bins that must hold some mass. -/
  minimum : UInt64
  /-- Mass that a point or bin needs to count as covered. -/
  massFloor : α
  /-- Draws made before giving up on a candidate. -/
  maxAttempts : UInt64
  /-- Integers that a discrete range may hold, and points looked at per candidate. -/
  maxPoints : UInt64

/-- A closed range of values. -/
structure ValueRange (α : Type) where
  lower : α
  upper : α
  deriving Repr, DecidableEq

variable {α : Type} [Scalar α]

def CoveragePolicy.standard : CoveragePolicy α := ⟨5, 1e-4, 100, 100000⟩

namespace ValueRange

/-- A fault of a range that belongs to no variable yet. -/
def fault (reason : String) : InvalidParameter := ⟨"*", "Ranges", "ranges", reason⟩

/-- The bound that stands in for an infinite end. -/
def limit : α := 1000

/-- The bound up to which doubles hold every integer. -/
def exactLimit : α := Scalar.ofNat (Nat.pow 2 53)

/-- The range between two bounds. An infinite end becomes a large finite one. -/
def ofBounds (lower upper : α) : Except InvalidParameter (ValueRange α) := do
  if Scalar.isNaN lower || Scalar.isNaN upper then throw (fault "bounds must be numbers")
  if upper ≤ lower then throw (fault "bounds must be increasing")
  let lower := if lower == -Scalar.infinity then -limit else lower
  let upper := if upper == Scalar.infinity then limit else upper
  if upper ≤ lower then throw (fault "bounds must be increasing")
  if exactLimit < Scalar.abs lower || exactLimit < Scalar.abs upper then
    throw (fault "bounds must be within 2^53")
  return ⟨lower, upper⟩

def width (r : ValueRange α) : α := r.upper - r.lower

def contains (r : ValueRange α) (x : α) : Bool := r.lower ≤ x && x ≤ r.upper

/-- How many integers the range holds. -/
def integerCount (r : ValueRange α) : α :=
  Scalar.max (Scalar.floor r.upper - Scalar.ceil r.lower + 1) 0

/-- Checks that the range holds no more integers than the policy allows. -/
def checkIntegerCount (r : ValueRange α) (policy : CoveragePolicy α) :
    Except InvalidParameter Unit :=
  if Scalar.ofUInt64 policy.maxPoints < r.integerCount then
    .error (fault s!"integer ranges may hold at most {policy.maxPoints} values")
  else .ok ()

/-- The first integers of the range, up to a number of them. -/
def integers (r : ValueRange α) (atMost : Nat) : List Int :=
  let first := (Scalar.toInt64 (Scalar.ceil r.lower)).toInt
  let last := (Scalar.toInt64 (Scalar.floor r.upper)).toInt
  (List.range (Nat.min (last - first + 1).toNat atMost)).map fun (i : Nat) => first + (i : Int)

/-- Bins of equal width that make up the range. -/
def bins (r : ValueRange α) (m : Nat) : List (α × α) :=
  let width := r.width / Scalar.ofNat m
  (List.range m).map fun i =>
    (r.lower + Scalar.ofNat i * width,
      if i + 1 = m then r.upper else r.lower + Scalar.ofNat (i + 1) * width)

/-- The inner edges of bins of equal mass: each at its quantile, moved into the range and not below the
edge before it. -/
def innerEdges (r : ValueRange α) (reference : Distribution α) (low high : α) (m : Nat) :
    List Nat → α → List α
  | [], _ => []
  | i :: rest, previous =>
    let q := low + (high - low) * Scalar.ofNat i / Scalar.ofNat m
    let edge := Scalar.min (Scalar.max (reference.quantile q) r.lower) r.upper
    let edge := Scalar.max edge previous
    edge :: innerEdges r reference low high m rest edge

/-- The stretches between successive edges. -/
def stretches (edges : List α) : List (α × α) := edges.zip (edges.drop 1)

/-- Bins that make up the range and hold the same mass under a reference distribution; of equal width
if it has no mass in the range. -/
def quantileBins (r : ValueRange α) (reference : Distribution α) (m : Nat) : List (α × α) :=
  let low := reference.cdf r.lower
  let high := reference.cdf r.upper
  if low < high then
    let inner := innerEdges r reference low high m ((List.range m).drop 1) r.lower
    stretches (r.lower :: (inner ++ [r.upper]))
  else r.bins m

/-- Bins of equal mass under a reference, or of equal width without one. -/
def continuousBins (r : ValueRange α) (reference : Option (Distribution α)) (m : Nat) :
    List (α × α) :=
  match reference with
  | some reference => r.quantileBins reference m
  | none => r.bins m

end ValueRange

end InfoFlow
