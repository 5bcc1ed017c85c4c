import InfoFlow.Program.Selector

namespace InfoFlow

/-- A comparison with a bound. -/
inductive Relation where
  | eq
  | lt
  | le
  | gt
  | ge
  deriving Repr, DecidableEq

namespace Relation

def symbol : Relation → String
  | eq => "=="
  | lt => "<"
  | le => "<="
  | gt => ">"
  | ge => ">="

def ofSymbol? : String → Option Relation
  | "==" => some eq
  | "<" => some lt
  | "<=" | "=<" => some le
  | ">" => some gt
  | ">=" | "=>" => some ge
  | _ => none

/-- The relation with its operands exchanged. -/
def flip : Relation → Relation
  | eq => eq
  | lt => gt
  | le => ge
  | gt => lt
  | ge => le

/-- Whether `x` stands in the relation to `bound`. -/
def holds {α : Type} [Scalar α] (r : Relation) (x bound : α) : Bool :=
  match r with
  | eq => x == bound
  | lt => x < bound
  | le => x ≤ bound
  | gt => bound < x
  | ge => bound ≤ x

end Relation

/-- Constraints on a selected variable. The precision is the width of the band around them; 0 makes
them exact. -/
structure Observation (α : Type) where
  target : String
  constraints : List (Relation × α)
  precision : α

/-- Why a text is not an observation. -/
inductive ObservationFault where
  | shape
  | missingOperand
  | unknownOperator (operator : String)
  | nameCount
  | notANumber (operand : String)
  | nameNotInTheMiddle
  | chainedEquality
  | infiniteBound
  deriving Repr, DecidableEq

namespace ObservationFault

def reason : ObservationFault → String
  | shape => "expected `a op b` or `a op b op c`"
  | missingOperand => "missing operand"
  | unknownOperator operator => s!"unknown operator `{operator}`"
  | nameCount => "exactly one operand must be a variable name"
  | notANumber operand => s!"`{operand}` is not a number"
  | nameNotInTheMiddle => "in `a op x op b` the variable must be in the middle"
  | chainedEquality => "`==` cannot be chained"
  | infiniteBound => "bounds must be finite"

end ObservationFault

/-- Why an observation is refused. -/
inductive ObservationError (α : Type) where
  | parse (expression : String) (fault : ObservationFault)
  | invalidPrecision (precision : α)

variable {α : Type} [Scalar α]

def ObservationError.message : ObservationError α → String
  | parse expression fault => s!"cannot parse observation `{expression}`: {fault.reason}"
  | invalidPrecision precision =>
    "observation precision must be finite and non-negative, got " ++ Scalar.text precision

namespace Observation

def isOperatorChar (c : Char) : Bool := c == '<' || c == '>' || c == '='

/-- A text cut at its maximal runs of operator characters: the part before the first run, and each
run with the part after it. -/
def cut (cs : List Char) : List Char × List (List Char × List Char) :=
  let operand := cs.takeWhile (!isOperatorChar ·)
  match _h : cs.dropWhile (!isOperatorChar ·) with
  | [] => (operand, [])
  | c :: rest =>
    let operator := c :: rest.takeWhile isOperatorChar
    let (next, more) := cut (rest.dropWhile isOperatorChar)
    (operand, (operator, next) :: more)
termination_by cs.length
decreasing_by
  have hcut := (List.dropWhile_suffix (l := cs) (!isOperatorChar ·)).length_le
  have hrest := (List.dropWhile_suffix (l := rest) isOperatorChar).length_le
  rw [_h, List.length_cons] at hcut
  omega

def isSelector (operand : List Char) : Bool := (Selector.ofChars? operand).isSome

def readBound? (operand : List Char) : Except ObservationFault α :=
  match Decimal.read? (String.ofList operand) with
  | some x => .ok x
  | none => .error (.notANumber (String.ofList operand))

def readRelation? (operator : List Char) : Except ObservationFault Relation :=
  match Relation.ofSymbol? (String.ofList operator) with
  | some r => .ok r
  | none => .error (.unknownOperator (String.ofList operator))

/-- The target and its constraints in a comparison of two operands. -/
def ofPair (a : List Char) (r : Relation) (b : List Char) :
    Except ObservationFault (List Char × List (Relation × α)) := do
  if isSelector a then return (a, [(r, ← readBound? b)])
  else return (b, [(r.flip, ← readBound? a)])

/-- The target and its constraints in a chain of three operands. -/
def ofChain (a : List Char) (r : Relation) (x : List Char) (s : Relation) (b : List Char) :
    Except ObservationFault (List Char × List (Relation × α)) := do
  if !isSelector x then throw .nameNotInTheMiddle
  if r == .eq || s == .eq then throw .chainedEquality
  let low ← readBound? a
  let high ← readBound? b
  return (x, [(r.flip, low), (s, high)])

/-- Whether a text breaks off after an operator. -/
def endsInOperator (cs : List Char) : Bool := cs.getLast?.any isOperatorChar

/-- The target and its constraints in a text. -/
def readConstraints (cs : List Char) :
    Except ObservationFault (List Char × List (Relation × α)) := do
  let (first, rest) := cut cs
  let first := Text.trim first
  let rest := rest.map fun (operator, operand) => (operator, Text.trim operand)
  let operands := first :: rest.map (·.2)
  if rest.isEmpty || 2 < rest.length || endsInOperator cs then throw .shape
  if operands.any List.isEmpty then throw .missingOperand
  let relations ← rest.mapM fun (operator, _) => readRelation? operator
  if operands.countP isSelector ≠ 1 then throw .nameCount
  let (target, constraints) ← match operands, relations with
    | [a, b], [r] => ofPair a r b
    | [a, x, b], [r, s] => ofChain a r x s b
    | _, _ => throw .shape
  if constraints.any fun (_, bound) => !Scalar.isFinite bound then throw .infiniteBound
  return (target, constraints)

def checkPrecision (precision : α) : Except (ObservationError α) Unit :=
  if Scalar.isFinite precision && 0 ≤ precision then pure ()
  else throw (.invalidPrecision precision)

/-- The observation that the target has a value. -/
def equals (target : String) (value precision : α) :
    Except (ObservationError α) (Observation α) := do
  checkPrecision precision
  return ⟨target, [(.eq, value)], precision⟩

/-- Reads an observation from its text: a comparison of the variable with a number, as in `out ==
42.5` or `52.5 < out`, or a chain with the variable in the middle, as in `10 > out > 5`. -/
def parse (expression : String) (precision : α) :
    Except (ObservationError α) (Observation α) := do
  checkPrecision precision
  match readConstraints expression.toList with
  | .ok (target, constraints) => return ⟨String.ofList target, constraints, precision⟩
  | .error fault => throw (.parse expression fault)

end Observation

end InfoFlow
