import InfoFlow.Random.Tables
import InfoFlow.Random.Uniform

namespace InfoFlow.Random

variable {α σ : Type} [Scalar α] [RandomWords σ]

/-- A density cut into layers: where the layers end, the density there, and how a draw beyond the
last edge is made, which sees the first uniform. -/
structure Ziggurat (σ α : Type) where
  edges : Array Float
  heights : Array Float
  isSymmetric : Bool
  density : α → α
  tail : α → Random σ α

namespace Ziggurat

def edge (z : Ziggurat σ α) (i : Nat) : α := Scalar.ofFloat (z.edges.getD i 0)

def height (z : Ziggurat σ α) (i : Nat) : α := Scalar.ofFloat (z.heights.getD i 0)

/-- The position inside the layer, in `[-1, 1)` for a symmetric density and in `(0, 1)` else. -/
def position (z : Ziggurat σ α) (w : UInt64) : α :=
  if z.isSymmetric then
    Scalar.ofNat (w >>> 12).toNat / Scalar.ofNat 2251799813685248 - 1
  else midpointOf w

/-- One word picks a layer and a position. A point under the next layer's edge is under the density;
else the base layer continues in the tail, and another layer decides by a uniform height. -/
@[specialize]
def trial (z : Ziggurat σ α) : Random σ (Option α) := do
  let w ← word
  let i := (w &&& 0xff).toNat
  let u := z.position w
  let x := u * z.edge i
  if (if z.isSymmetric then Scalar.abs x else x) < z.edge (i + 1) then return some x
  if i = 0 then return some (← z.tail u)
  let height := z.height (i + 1) + (z.height i - z.height (i + 1)) * (← unit)
  return if height < z.density x then some x else none

@[specialize]
def draw (z : Ziggurat σ α) : Random σ α := untilAccepted z.trial Scalar.nan rounds

/-- Where the normal tail starts. -/
def normalTail : α := Scalar.ofFloat 3.654152885361008796

/-- Where the exponential tail starts. -/
def exponentialTail : α := Scalar.ofFloat 7.697117470131050077

/-- A draw from the normal tail, on the side of `u`. -/
def drawNormalTail (u : α) : Random σ α := do
  let trial : Random σ (Option α) := do
    let x := Scalar.log (← openUnit) / normalTail
    let y := Scalar.log (← openUnit)
    return if -2 * y < x * x then none else some x
  let x ← untilAccepted trial Scalar.nan rounds
  return if u < 0 then x - normalTail else normalTail - x

def standardNormal : Ziggurat σ α where
  edges := normalEdges
  heights := normalHeights
  isSymmetric := true
  density x := Scalar.exp (-x * x / 2)
  tail := drawNormalTail

def unitExponential : Ziggurat σ α where
  edges := exponentialEdges
  heights := exponentialHeights
  isSymmetric := false
  density x := Scalar.exp (-x)
  tail _ := do return exponentialTail - Scalar.log (← unit)

end Ziggurat

/-- A standard normal draw. -/
def normal : Random σ α := Ziggurat.standardNormal.draw

/-- A draw from the exponential distribution of rate 1. -/
def exponential : Random σ α := Ziggurat.unitExponential.draw

end InfoFlow.Random
