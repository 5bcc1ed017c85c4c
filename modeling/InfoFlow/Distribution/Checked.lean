import InfoFlow.Distribution.Density

namespace InfoFlow

/-- What word arithmetic may run into. -/
inductive WordFault where
  /-- A position after the last one. -/
  | outOfBounds
  /-- A negative difference of counts. -/
  | underflow
  /-- A whole number that is no signed word. -/
  | overflow
  deriving Repr, DecidableEq

namespace WordFault

/-- The entry at a position. -/
def entry {α : Type} (entries : Array α) (i : Nat) : Except WordFault α :=
  match entries[i]? with
  | some x => .ok x
  | none => .error .outOfBounds

/-- The difference of two counts. -/
def difference (n k : UInt64) : Except WordFault UInt64 :=
  if n < k then .error .underflow else .ok (n - k)

/-- A whole number as a signed word. -/
def signed (i : Int) : Except WordFault Int64 :=
  if Int64.minValue.toInt ≤ i ∧ i ≤ Int64.maxValue.toInt then .ok (Int64.ofInt i) else .error .overflow

/-- How many whole numbers there are between two bounds, both included. -/
def span (lower upper : Int64) : Except WordFault Int64 := do
  let distance ← signed (upper.toInt - lower.toInt)
  signed (distance.toInt + 1)

end WordFault

namespace Distribution

open Special

variable {α : Type} [Scalar α]

/-- The log-density, with every position, every difference of counts and every count of whole numbers
checked. -/
def lnDensityChecked (d : Distribution α) (x : α) : Except WordFault α :=
  if Scalar.isNaN x || !d.support.contains x then .ok (-Scalar.infinity)
  else match d with
    | .betaBinomial n a b => do
      let k := Scalar.toUInt64 x
      let failures ← WordFault.difference n k
      return lnBinomial n k + lnBeta (x + a) (Scalar.ofUInt64 failures + b) - lnBeta a b
    | .binomial n p => do
      let k := Scalar.toUInt64 x
      let failures ← WordFault.difference n k
      return lnBinomial n k + Scalar.mulLog x p + Scalar.mulLog (Scalar.ofUInt64 failures) (1 - p)
    | .discreteUniform lower upper => do
      let count ← WordFault.span lower upper
      return -Scalar.log (Scalar.ofInt64 count)
    | .categorical weights => do
      let weight ← WordFault.entry weights (Scalar.toUInt64 x).toNat
      return Scalar.log weight
    | d => .ok (d.lnDensity x)

end Distribution

end InfoFlow
