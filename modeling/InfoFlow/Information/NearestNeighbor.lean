import InfoFlow.Information.Neighbors
import InfoFlow.Random.Normal
import InfoFlow.Special.Gamma

/-!
Mutual information from nearest neighbors, in nats.

Two continuous sides: with `eps` the distance of a sample to its `k`-th neighbor in the joint space, and
`nx`, `ny` the numbers of samples strictly closer than `eps` on each side, the estimate is
`ψ n + ψ k` less the mean of `ψ (nx + 1) + ψ (ny + 1)`.

A continuous side and labels: with `d` the distance of a sample to its `k`-th neighbor among the samples
of its label and `m` the number of samples strictly closer than `d`, itself included, the estimate is
`ψ n` plus the mean of `ψ k - ψ size - ψ m`, where `size` counts the samples of the label.

`ψ` is the digamma function.
-/

namespace InfoFlow

variable {α σ : Type} [Scalar α] [RandomWords σ]

/-- Amplitude of the noise on a column: tiny, but in proportion to the magnitude of its numbers. -/
def noiseAmplitude (column : List α) (n : α) : α :=
  1e-10 * Scalar.max (Scalar.sum (column.map Scalar.abs) / n) 1

/-- Adds noise to the numbers of a column. -/
def addNoise (amplitude : α) (column : List α) : Random σ (List α) :=
  column.mapM fun x => do return x + amplitude * (← Random.normal)

/-- Adds noise to columns, one after the other. -/
def addNoiseToColumns (n : α) (columns : List (List α)) : Random σ (List (List α)) :=
  columns.mapM fun column => addNoise (noiseAmplitude column n) column

/-- Scales every column to unit variance and adds a little noise, which breaks ties. -/
def prepare (m : Matrix α) : Random σ (Matrix α) := do
  let scaled := m.scaled
  let columns := (List.range scaled.width).map fun j => (scaled.column? j).getD []
  let noisy ← addNoiseToColumns (Scalar.ofNat (Nat.max scaled.size 1)) columns
  let arrays := noisy.map List.toArray
  let rows := (List.range scaled.size).map fun i => arrays.map fun column => column.getD i 0
  return { Matrix.ofLists scaled.width rows with layout := m.layout }

/-- What sample `i` adds to the mean for two continuous sides. -/
def kraskovTerm (ψ : α → α) (joint x y : PointSet α) (k i : Nat) : α :=
  let eps := joint.kthNeighborDistance i k
  ψ (Scalar.ofNat (x.countWithin i eps) + 1) + ψ (Scalar.ofNat (y.countWithin i eps) + 1)

/-- Estimate for two continuous sides, with `ψ` as digamma function; 0 if they are not aligned. It can
be negative. -/
def kraskovWith (ψ : α → α) (x y : Matrix α) (k : Nat) : α :=
  match x.beside? y with
  | none => 0
  | some joint =>
    let joint := PointSet.ofMatrix joint
    let xs := PointSet.ofMatrix x
    let ys := PointSet.ofMatrix y
    let n : α := Scalar.ofNat x.size
    let total := Scalar.sum ((List.range x.size).map (kraskovTerm ψ joint xs ys k))
    ψ n + ψ (Scalar.ofNat k) - total / n

/-- Estimate for two continuous sides. -/
def kraskov (x y : Matrix α) (k : Nat) : α := kraskovWith Special.digamma x y k

/-- The samples of a label, in order. -/
def samplesOf {β : Type} [BEq β] (labels : List β) (label : β) : List Nat :=
  (labels.zipIdx.filter fun (l, _) => l == label).map (·.2)

/-- A sample whose label occurs more than once, with what its own group says of it. -/
structure GroupedSample (α : Type) where
  index : Nat
  /-- Number of samples of its label. -/
  groupSize : Nat
  /-- Neighbors looked at, fewer than the group has samples. -/
  neighbors : Nat
  /-- Distance to the last of these neighbors. -/
  radius : α

/-- The samples of one label; none if there is only one. -/
def groupSamples {β : Type} [BEq β] (c : Matrix α) (labels : List β) (k : Nat) (label : β) :
    List (GroupedSample α) :=
  let rows := samplesOf labels label
  if rows.length ≤ 1 then []
  else
    let k := Nat.min k (rows.length - 1)
    let set := PointSet.ofMatrix (c.select rows)
    rows.zipIdx.map fun (i, position) =>
      ⟨i, rows.length, k, set.kthNeighborDistance position k⟩

/-- The samples whose label occurs more than once, in order. -/
def groupedSamples {β : Type} [BEq β] (c : Matrix α) (labels : List β) (k : Nat) :
    List (GroupedSample α) :=
  (labels.eraseDups.flatMap (groupSamples c labels k)).mergeSort fun a b =>
    a.index ≤ b.index

/-- Estimate for a continuous side and labels, with `ψ` as digamma function. Samples with a label of
their own are left out; 0 if that leaves none. -/
def rossWith {β : Type} [BEq β] (ψ : α → α) (c : Matrix α) (labels : List β) (k : Nat) : α :=
  let kept := groupedSamples c labels k
  if kept.isEmpty then 0
  else
    let set := PointSet.ofMatrix (c.select (kept.map GroupedSample.index))
    let n : α := Scalar.ofNat kept.length
    let terms := kept.zipIdx.map fun (s, position) =>
      ψ (Scalar.ofNat s.neighbors) - ψ (Scalar.ofNat s.groupSize) -
        ψ (Scalar.ofNat (set.countWithin position s.radius + 1))
    ψ n + Scalar.sum terms / n

/-- Estimate for a continuous side and labels. -/
def ross {β : Type} [BEq β] (c : Matrix α) (labels : List β) (k : Nat) : α :=
  rossWith Special.digamma c labels k

end InfoFlow
