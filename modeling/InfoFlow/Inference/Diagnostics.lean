import InfoFlow.Scalar.Basic

namespace InfoFlow

namespace Diagnostics

variable {α : Type} [Scalar α]

def mean (xs : List α) : α := Scalar.sum xs / Scalar.ofNat xs.length

/-- Sum of the squared distances from a center. -/
def squaredDistances (center : α) (xs : List α) : α :=
  Scalar.sum (xs.map fun x => (x - center) * (x - center))

/-- The length of the shortest chain; 0 without chains. -/
def commonLength (chains : List (List α)) : Nat := (chains.map List.length).min?.getD 0

/-- The two halves of every chain, of `n` draws each. -/
def halves (n : Nat) (chains : List (List α)) : List (List α) :=
  chains.flatMap fun c => [c.take n, (c.drop n).take n]

/-- Split potential scale reduction: the variance between the halves of the chains against the
variance within them, near 1 if the chains mix. There is none with fewer than four draws per chain,
and when the halves are constant but disagree. -/
def rHat (chains : List (List α)) : Option α :=
  let n := commonLength chains / 2
  if n < 2 then none
  else
    let halves := halves n chains
    let count : α := Scalar.ofNat halves.length
    let size : α := Scalar.ofNat n
    let means := halves.map mean
    let between := size * squaredDistances (mean means) means / (count - 1)
    let within := Scalar.sum ((halves.zip means).map fun (half, center) =>
      squaredDistances center half / (size - 1)) / count
    if within == 0 then if between == 0 then some 1 else none
    else some (Scalar.sqrt (((size - 1) / size * within + between / size) / within))

/-- Average product of the deviations of draws that are `lag` apart. -/
def autocovariance (xs : List α) (center : α) (lag : Nat) : α :=
  Scalar.sum (List.zipWith (fun a b => (a - center) * (b - center)) xs (xs.drop lag)) /
    Scalar.ofNat xs.length

/-- Adds pairs of successive autocorrelations up to the first negative pair. -/
@[specialize]
def pairSum (correlation : Nat → α) (n lag : Nat) (sum : α) : α :=
  if lag + 1 < n then
    let pair := correlation lag + correlation (lag + 1)
    if pair < 0 then sum else pairSum correlation n (lag + 2) (sum + pair)
  else sum
termination_by n - lag

/-- Effective sample size over all chains. Constant chains and very short ones count as independent
draws. -/
def effectiveSize (chains : List (List α)) : α :=
  let n := commonLength chains
  let count : α := Scalar.ofNat chains.length
  let total := Scalar.ofNat n * count
  if n < 4 then total
  else
    let moments := (chains.map (·.take n)).map fun c =>
      let center := mean c
      (c, center, autocovariance c center 0)
    if moments.any fun (_, _, variance) => variance == 0 then total
    else
      let correlation (lag : Nat) : α :=
        Scalar.sum (moments.map fun (c, center, variance) =>
          autocovariance c center lag / variance) / count
      let sum := pairSum correlation n 0 0
      let time := Scalar.max (2 * sum - 1) (1 / Scalar.max (Scalar.log10 total) 1)
      total / time

end Diagnostics

/-- A numerical problem met while sampling. -/
structure Warning where
  chain : Nat
  iteration : Nat
  variableName : String
  reason : String
  deriving Repr, DecidableEq

/-- How a chain went. -/
structure ChainSummary (α : Type) where
  chain : Nat
  draws : Nat
  /-- Accepted moves over proposed ones, after tuning. -/
  acceptance : α
  divergences : Nat
  /-- The time ran out. -/
  isTruncated : Bool
  deriving Repr, DecidableEq

/-- Diagnostics of each element of a variable. -/
structure VariableSummary (α : Type) where
  name : String
  rHat : List (Option α)
  effectiveSize : List α
  deriving Repr, DecidableEq

/-- Diagnostics of a run. -/
structure Diagnostics (α : Type) where
  summaries : List (VariableSummary α)
  chains : List (ChainSummary α)
  /-- The first warnings of each chain. -/
  warnings : List Warning
  deriving Repr, DecidableEq

namespace Diagnostics

variable {α : Type}

def empty : Diagnostics α := ⟨[], [], []⟩

def summary? (d : Diagnostics α) (name : String) : Option (VariableSummary α) :=
  d.summaries.find? (·.name == name)

def divergences (d : Diagnostics α) : Nat :=
  d.chains.foldr (fun c divergences => c.divergences + divergences) 0

def hasDivergences (d : Diagnostics α) : Bool := 0 < d.divergences

def isTruncated (d : Diagnostics α) : Bool := d.chains.any ChainSummary.isTruncated

variable [Scalar α]

/-- The extreme of a list under an operation; `none` for none. -/
def extreme (pick : α → α → α) : List α → Option α
  | [] => none
  | x :: xs => some (xs.foldl pick x)

/-- The largest split potential scale reduction of any element. -/
def maxRHat (d : Diagnostics α) : Option α :=
  extreme Scalar.max (d.summaries.flatMap fun v => v.rHat.filterMap id)

/-- The smallest effective sample size of any element. -/
def minEffectiveSize (d : Diagnostics α) : Option α :=
  extreme Scalar.min (d.summaries.flatMap VariableSummary.effectiveSize)

end Diagnostics

end InfoFlow
