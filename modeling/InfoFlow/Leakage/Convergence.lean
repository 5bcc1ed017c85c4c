import InfoFlow.Information.Samples

namespace InfoFlow

/-- An estimate from a number of samples. -/
structure CurvePoint (α : Type) where
  samples : Nat
  estimate : α
  deriving Repr, DecidableEq

variable {α : Type} [Scalar α]

/-- Distance of an estimate from a reference. The relative distance from 0 is 0 for 0 itself, and
infinite otherwise. -/
def estimateDistance (isRelative : Bool) (estimate reference : α) : α :=
  let difference := Scalar.abs (estimate - reference)
  if !isRelative then difference
  else if !(reference == 0) then difference / Scalar.abs reference
  else if difference == 0 then 0
  else Scalar.infinity

/-- A growing curve, and how it is judged. -/
structure Convergence (α : Type) where
  /-- In increasing order, each once. -/
  deltas : List α
  window : Nat
  isRelative : Bool
  points : List (CurvePoint α)

namespace Convergence

/-- A list without the entries that equal the one before them. -/
def withoutRepeats : List α → List α
  | x :: y :: rest => if x == y then withoutRepeats (x :: rest) else x :: withoutRepeats (y :: rest)
  | xs => xs

/-- An empty curve. -/
def start (deltas : List α) (window : Nat) (isRelative : Bool) :
    Except LeakageError (Convergence α) := do
  if deltas.isEmpty then throw (.invalidParams .noDeltas)
  if deltas.any fun d => !(0 < d) || !Scalar.isFinite d then
    throw (.invalidParams .deltasNotPositive)
  if window = 0 then throw (.invalidParams .noWindow)
  return ⟨withoutRepeats (deltas.mergeSort Scalar.totalLe), window, isRelative, []⟩

/-- Adds the estimate from more samples. -/
def push (c : Convergence α) (p : CurvePoint α) : Except LeakageError (Convergence α) :=
  match c.points.getLast? with
  | some last =>
    if p.samples ≤ last.samples then
      .error (.invalidParams (.pointsMustGrow p.samples last.samples))
    else .ok { c with points := c.points ++ [p] }
  | none => .ok { c with points := [p] }

/-- The last points that are within `delta` of the last estimate, last one first. -/
def stableTail (c : Convergence α) (delta : α) : List (CurvePoint α) :=
  match c.points.getLast? with
  | none => []
  | some last => c.points.reverse.takeWhile fun p =>
    estimateDistance c.isRelative p.estimate last.estimate ≤ delta

/-- The sample size from which on the curve is within `delta` of its last estimate, however few points
that is. -/
def stableFrom? (c : Convergence α) (delta : α) : Option Nat :=
  (c.stableTail delta).getLast?.map CurvePoint.samples

/-- The sample size from which on the curve has converged within `delta`. -/
def convergedAt? (c : Convergence α) (delta : α) : Option Nat :=
  if (c.stableTail delta).length < c.window then none else c.stableFrom? delta

/-- Each delta with the sample size from which on the curve has converged within it. -/
def summary (c : Convergence α) : List (α × Option Nat) :=
  c.deltas.map fun d => (d, c.convergedAt? d)

def allConverged (c : Convergence α) : Bool := c.deltas.all fun d => (c.convergedAt? d).isSome

/-- The largest distance from the last estimate among the last points of a window. -/
def spread? (c : Convergence α) : Option α :=
  match c.points.reverse with
  | [] => none
  | last :: before =>
    let distance (p : CurvePoint α) : α :=
      estimateDistance c.isRelative p.estimate last.estimate
    some ((before.take (c.window - 1)).foldl
      (fun largest p => if Scalar.totalLe largest (distance p) then distance p else largest)
      (distance last))

end Convergence

/-- Estimates from growing numbers of samples, and where they converged. -/
structure LeakageCurve (α : Type) where
  points : List (CurvePoint α)
  converged : List (α × Option Nat)

def LeakageCurve.last? (c : LeakageCurve α) : Option α := c.points.getLast?.map CurvePoint.estimate

/-- The sizes that a curve is evaluated at: cut to the number of samples, without those below the
floor, in increasing order, each once. -/
def curveSizes (sizes : List Nat) (n floor : Nat) : List Nat :=
  ((sizes.map fun s => Nat.min s n).filter (floor ≤ ·)).mergeSort.eraseDups

/-- Adds the estimate from the first `size` samples. -/
def extendCurve (secret output : Samples α) (p : EstimatorParams) (c : Convergence α) (size : Nat) :
    Except LeakageError (Convergence α) := do
  let estimate ← mutualInformation (secret.take size) (output.take size) p
  c.push ⟨size, estimate⟩

/-- Mutual information from the first samples, as many as each of the sizes says. -/
def leakageCurve (secret output : Samples α) (p : EstimatorParams) (sizes : List Nat)
    (deltas : List α) (window : Nat) (isRelative : Bool) :
    Except LeakageError (LeakageCurve α) := do
  let n := secret.size
  if n ≠ output.size then throw (.lengthMismatch n output.size)
  let floor := p.sampleFloor.toNat
  let start ← Convergence.start deltas window isRelative
  let sizes := curveSizes sizes n floor
  if sizes.isEmpty then throw (.insufficientSamples n floor)
  let c ← sizes.foldlM (extendCurve secret output p) start
  return ⟨c.points, c.summary⟩

/-- Evenly spaced sizes from `first` to `n`, computed with rounded numbers. -/
def linearSizesWith (α : Type) [Scalar α] (first n steps : Nat) : List Nat :=
  if steps ≤ 1 || n ≤ first then [n]
  else
    let stride : α := Scalar.ofNat (n - first) / Scalar.ofNat (steps - 1)
    (List.range steps).map fun i =>
      first + (Scalar.toUInt64 (Scalar.round (Scalar.ofNat i * stride))).toNat

end InfoFlow
