import InfoFlow.Model.Prior

namespace InfoFlow

/-- Why a transformation has no outputs at a state. -/
inductive EvaluationError where
  | transformation (reason : String)
  | outputCount (expected found : Nat)
  | outputShape (output : String) (expected found : Nat)
  deriving Repr, DecidableEq

namespace EvaluationError

def message : EvaluationError → String
  | transformation reason => s!"transformation failed on probe input: {reason}"
  | outputCount expected found =>
    s!"the program declares {expected} outputs, the transformation returned {found}"
  | outputShape output expected found =>
    s!"output `{output}` should have {expected} elements, the transformation returned {found}"

end EvaluationError

variable {α : Type} [Scalar α]

/-- Log-likelihood of a value under one constraint.

Discrete values, and all values at precision 0, have to satisfy the constraint, equalities up to
`1e-9`. Otherwise an equality is a normal density around the bound, with the precision as its
deviation, and a violated inequality costs `1 / (2 * precision ^ 2)`. -/
def constraintLnLikelihood (x : α) (relation : Relation) (bound precision : α)
    (isDiscrete : Bool) : α :=
  if Scalar.isNaN x then -Scalar.infinity
  else
    let isExact := isDiscrete || precision == 0
    if relation = .eq then
      if isExact then
        if Scalar.isWithin 1e-9 x bound then 0 else -Scalar.infinity
      else Distribution.normalLnDensity x bound precision
    else if relation.holds x bound then 0
    else if isExact then -Scalar.infinity
    else -0.5 / (precision * precision)

namespace Model

/-- The values that the transformation gets. -/
def argumentValues (m : Model α) (state : State α) : List (Value α) :=
  m.arguments.map fun i =>
    if (m.nodes[i]?.map Node.isScalar).getD true then .scalar (state.value i 0)
    else .vector (state.getD i #[]).toList

/-- An output value with the width that was declared for it. -/
def checkOutput (output : Output) (value : Value α) : Except EvaluationError (List α) :=
  if value.length ≠ output.width then
    .error (.outputShape output.name output.width value.length)
  else .ok value.elements

/-- The elements of all outputs at a state. -/
def evaluate (m : Model α) (state : State α) : Except EvaluationError (List (List α)) :=
  match m.transformation (m.argumentValues state) with
  | .error reason => .error (.transformation reason)
  | .ok values =>
    if values.length ≠ m.outputs.length then
      .error (.outputCount m.outputs.length values.length)
    else (m.outputs.zip values).mapM fun (output, value) => checkOutput output value

/-- The elements that an observation constrains. -/
def siteValues (site : Site) (state : State α) (outputs : List (List α)) : List α :=
  let select (values : List α) : Option Nat → List α
    | some e => values[e]?.toList
    | none => values
  match site with
  | .node i element => select (state.getD i #[]).toList element
  | .output o element => select (outputs.getD o []) element

/-- The log-likelihood terms of one observation. -/
def observationTerms (o : SiteObservation α) (state : State α) (outputs : List (List α)) :
    List α :=
  (siteValues o.site state outputs).flatMap fun x =>
    o.constraints.map fun (relation, bound) =>
      constraintLnLikelihood x relation bound o.precision o.isDiscrete

/-- Log-likelihood of all observations. -/
def lnLikelihood (m : Model α) (state : State α) (outputs : List (List α)) : α :=
  Scalar.sum (m.observations.flatMap fun o => observationTerms o state outputs)

end Model

end InfoFlow
