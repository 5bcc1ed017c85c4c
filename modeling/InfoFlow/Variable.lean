import InfoFlow.Distribution.Density
import InfoFlow.Distribution.Sampler

namespace InfoFlow

/-- What a parameter is bound to. -/
inductive Parameter (α : Type) where
  | value (x : α)
  /-- The weights of a categorical distribution. -/
  | weights (ws : List α)
  | reference (name : String)
  deriving Repr, DecidableEq

namespace Parameter

variable {α : Type}

def reference? : Parameter α → Option String
  | reference name => some name
  | _ => none

end Parameter

/-- A parameter of a declared variable, or of a range, that breaks a constraint. -/
structure InvalidParameter where
  subject : String
  kind : String
  parameter : String
  reason : String
  deriving Repr, DecidableEq

namespace InvalidParameter

def message (e : InvalidParameter) : String :=
  s!"invalid parameter `{e.parameter}` of {e.kind} variable `{e.subject}`: {e.reason}"

end InvalidParameter

/-- The fault, as one of the variable `name` of family `f`. -/
def ParameterFault.of (fault : ParameterFault) (name : String) (f : Family) : InvalidParameter :=
  ⟨name, f.name, fault.parameter, fault.reason⟩

/-- A single number, or a vector of independent ones. -/
inductive Shape where
  | scalar
  | vector (n : Nat)
  deriving Repr, DecidableEq

def Shape.width : Shape → Nat
  | scalar => 1
  | vector n => n

/-- A declared input of a program. The parameters stand in signature order. -/
structure Variable (α : Type) where
  name : String
  family : Family
  parameters : List (Parameter α)
  shape : Shape
  isHyper : Bool

namespace Variable

variable {α : Type}

/-- Parameter names with their bindings. -/
def bindings (v : Variable α) : List (String × Parameter α) :=
  v.family.signature.zip v.parameters

/-- The referenced variables, each with the parameter that references it. -/
def references (v : Variable α) : List (String × String) :=
  v.bindings.filterMap fun (parameter, binding) => binding.reference?.map (parameter, ·)

def width (v : Variable α) : Nat := v.shape.width

def isDiscrete (v : Variable α) : Bool := v.family.isDiscrete

variable [Scalar α]

/-- The values of literal parameters, 0 standing in for weights; `none` if one is a reference. -/
def literalValues? (parameters : List (Parameter α)) : Option (List α) :=
  parameters.mapM fun
    | .value x => some x
    | .weights _ => some 0
    | .reference _ => none

/-- The first weights among the parameters. -/
def literalWeights? (parameters : List (Parameter α)) : Option (List α) :=
  parameters.findSome? fun
    | .weights ws => some ws
    | _ => none

/-- Checks one parameter on its own. -/
def checkParameter (f : Family) (parameter : String) :
    Parameter α → Except ParameterFault Unit
  | .value x =>
    if f = .categorical then .error ⟨parameter, "expected a probability vector"⟩
    else checkLiteral f parameter x
  | .weights _ =>
    if f = .categorical then pure () else .error ⟨parameter, "expected a scalar value"⟩
  | .reference _ =>
    if f = .categorical then .error ⟨parameter, "probabilities must be given as literals"⟩
    else pure ()

/-- The distribution, if no parameter is a reference; the fault if the literals do not fit. -/
def literalDistribution? (f : Family) (parameters : List (Parameter α)) :
    Option (Except ParameterFault (Distribution α)) :=
  (literalValues? parameters).map fun values =>
    Distribution.build f values (literalWeights? parameters)

/-- Declares a scalar variable. Literals are checked now, and constraints that tie parameters
together once all of them are literals; a parameter that is a reference is checked where it has a
value. -/
def declare (name : String) (f : Family) (parameters : List (Parameter α)) :
    Except InvalidParameter (Variable α) :=
  let signature := f.signature
  if parameters.length ≠ signature.length then
    let expected := ", ".intercalate signature
    .error ⟨name, f.name, "*",
      s!"expected {signature.length} parameters ({expected}), got {parameters.length}"⟩
  else
    let checked : Except ParameterFault Unit := do
      (signature.zip parameters).forM fun (parameter, binding) =>
        checkParameter f parameter binding
      match literalDistribution? f parameters with
      | some (.error fault) => throw fault
      | _ => pure ()
    match checked with
    | .error fault => .error (fault.of name f)
    | .ok _ => .ok ⟨name, f, parameters, .scalar, false⟩

/-- Turns the declaration into `n` independent draws. -/
def withElements (v : Variable α) (n : Nat) : Except InvalidParameter (Variable α) :=
  if n = 0 then
    .error ⟨v.name, v.family.name, "num_elements", "a vector needs at least one element"⟩
  else .ok { v with shape := .vector n }

/-- Marks the variable as one that only parameterizes others. -/
def hyper (v : Variable α) : Variable α := { v with isHyper := true }

/-- The concrete distribution, if no parameter is a reference. -/
def distribution? (v : Variable α) : Option (Except InvalidParameter (Distribution α)) :=
  (literalDistribution? v.family v.parameters).map fun d =>
    d.mapError (·.of v.name v.family)

/-- The domain; that of the family where some parameter is a reference. -/
def support (v : Variable α) : Support α :=
  match v.distribution? with
  | some (.ok d) => d.support
  | _ => Support.ofFamily v.family

/-- A sampler, if no parameter is a reference. -/
def sampler? (v : Variable α) : Option (Except (Failure InvalidParameter) (Sampler α)) :=
  v.distribution?.map fun d => do
    (Sampler.ofDistribution (← d.mapError .error)).mapError (.map (·.of v.name v.family))

/-- A variable of a distribution, with one or more elements. -/
def ofDistribution (name : String) (d : Distribution α) (elements : Nat) :
    Except InvalidParameter (Variable α) := do
  let v ← declare name d.family (d.parameterValues.map .value)
  if 1 < elements then v.withElements elements else pure v

end Variable

end InfoFlow
