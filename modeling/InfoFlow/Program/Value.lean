namespace InfoFlow

/-- A number or a vector; a vector of one element is not a number. -/
inductive Value (α : Type) where
  | scalar (x : α)
  | vector (xs : List α)
  deriving Repr, DecidableEq

namespace Value

variable {α : Type}

/-- The number of a scalar. -/
def scalar? : Value α → Except String α
  | scalar x => .ok x
  | vector xs => .error s!"expected a scalar, got a vector of {xs.length} elements"

/-- All elements; a scalar has one. -/
def elements : Value α → List α
  | scalar x => [x]
  | vector xs => xs

def length (v : Value α) : Nat := v.elements.length

end Value

/-- What a program computes: output values from argument values, or the text of a failure. -/
abbrev Transformation (α : Type) := List (Value α) → Except String (List (Value α))

end InfoFlow
