namespace InfoFlow

/-- Ways in which a computation comes to no answer at all, not even to an error. -/
inductive Breakdown where
  /-- The ends of a range of floats are too far apart for its width. -/
  | rangeOverflow
  /-- No float lies in a range. -/
  | emptyRange
  /-- A quantile is asked for at a chance outside `[0, 1]`. -/
  | outsideUnit
  /-- A number does not fit in a machine word. -/
  | wordOverflow
  /-- A number of successes is below 0. -/
  | negativeCount
  /-- A loop does not come to an end. -/
  | endless
  deriving Repr, DecidableEq

/-- Why a computation has no result: an error that it reports, or a breakdown. -/
inductive Failure (ε : Type) where
  | error (e : ε)
  | breakdown (b : Breakdown)
  deriving Repr, DecidableEq

namespace Failure

variable {ε ε' : Type}

def map (f : ε → ε') : Failure ε → Failure ε'
  | error e => error (f e)
  | breakdown b => breakdown b

end Failure

end InfoFlow
