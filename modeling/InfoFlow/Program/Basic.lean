import InfoFlow.Program.Observation
import InfoFlow.Program.Value
import InfoFlow.Variable

namespace InfoFlow

/-- Whether an input is a secret or may be assumed to be known to an observer. -/
inductive Role where
  | secret
  | known
  deriving Repr, DecidableEq

/-- A declared output. -/
structure Output where
  name : String
  isDiscrete : Bool
  width : Nat
  deriving Repr, DecidableEq

/-- A program; inputs and outputs in declaration order. The transformation gets the inputs that are
not hyper-parameters, and returns one value per output. -/
structure Program (α : Type) where
  name : String
  inputs : List (Variable α × Role)
  outputs : List Output
  transformation : Transformation α
  observations : List (Observation α)

end InfoFlow
