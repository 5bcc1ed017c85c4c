import InfoFlow.Model.Likelihood
import InfoFlow.Model.Order

namespace InfoFlow

/-- Why a program is refused. -/
inductive CompileError where
  | noOutputs
  | duplicateVariable (name : String)
  | unresolvedReference (subject parameter target : String)
  | cycle (names : List String)
  | notBroadcastable (subject parameter target : String) (found expected : Nat)
  | unknownObservationTarget (target : String)
  | invalidParameter (e : InvalidParameter)
  | evaluation (e : EvaluationError)
  deriving Repr, DecidableEq

namespace CompileError

def message : CompileError → String
  | noOutputs => "the program declares no outputs"
  | duplicateVariable name => s!"variable `{name}` is declared more than once"
  | unresolvedReference subject parameter target =>
    s!"parameter `{parameter}` of `{subject}` references unknown variable `{target}`"
  | cycle names => "cyclic parameter references between: " ++ ", ".intercalate names
  | notBroadcastable subject parameter target found expected =>
    s!"parameter `{parameter}` of `{subject}` references `{target}` with {found} elements, " ++
      s!"expected 1 or {expected}"
  | unknownObservationTarget target => s!"observation refers to unknown variable `{target}`"
  | invalidParameter e => e.message
  | evaluation e => e.message

end CompileError

namespace Program

variable {α : Type} [Scalar α]

/-- The position of the input of a name. -/
def inputIndex? (p : Program α) (name : String) : Option Nat :=
  p.inputs.findIdx? fun (v, _) => v.name == name

/-- The first name that occurs again after it was seen. -/
def firstRepeated? (seen : List String) : List String → Option String
  | [] => none
  | name :: rest =>
    if seen.contains name then some name else firstRepeated? (name :: seen) rest

/-- The position of the input that a parameter of input `i` references. -/
def resolveReference (p : Program α) (i : Nat) (v : Variable α) (parameter target : String) :
    Except CompileError Nat := do
  let some j := p.inputIndex? target
    | throw (.unresolvedReference v.name parameter target)
  if j = i then throw (.cycle [v.name])
  let found := (p.inputs[j]?.map (·.1.width)).getD 0
  if found ≠ 1 && found ≠ v.width then
    throw (.notBroadcastable v.name parameter target found v.width)
  return j

/-- The inputs that input `i` references, each once, in the order of the first reference. -/
def parentsOf (p : Program α) (i : Nat) (v : Variable α) : Except CompileError (List Nat) :=
  v.references.foldlM (fun parents (parameter, target) => do
    let j ← p.resolveReference i v parameter target
    return if parents.contains j then parents else parents ++ [j]) []

/-- The parents of all inputs. -/
def parents (p : Program α) : Except CompileError (List (List Nat)) :=
  p.inputs.zipIdx.mapM fun ((v, _), i) => p.parentsOf i v

/-- Inputs in an order in which parents come first. -/
def inputOrder (p : Program α) (parents : List (List Nat)) : Except CompileError (List Nat) :=
  (Order.topological parents).mapError fun stuck =>
    .cycle (stuck.filterMap fun i => p.inputs[i]?.map (·.1.name))

/-- Checks that the inputs without references have distributions, one after the other. -/
def checkLiterals (p : Program α) (order : List Nat) : Except CompileError Unit :=
  order.forM fun d =>
    match p.inputs[d]?.bind (·.1.distribution?) with
    | some (.error e) => throw (.invalidParameter e)
    | _ => pure ()

/-- The bindings of a variable's parameters, for the node of each declared input. -/
def bindParameters (p : Program α) (declaration : List Nat) (v : Variable α) : List (Binding α) :=
  v.parameters.map fun
    | .value x => .value x
    | .weights ws => .weights ws
    | .reference name => .node ((p.inputIndex? name).bind (declaration[·]?) |>.getD 0)

/-- The node of the input declared at position `d`. -/
def node (p : Program α) (parents : List (List Nat)) (declaration : List Nat)
    (isObserved : Nat → Bool) (d : Nat) (v : Variable α) (role : Role) : Node α :=
  { name := v.name
    family := v.family
    role := role
    width := v.width
    isScalar := v.shape == .scalar
    isHyper := v.isHyper
    declared := d
    bindings := p.bindParameters declaration v
    step := Step.ofFamily v.family
    children := (parents.zipIdx.filterMap fun (ps, child) =>
      if ps.contains d then declaration[child]? else none).mergeSort
    isObserved := isObserved d
    literal := (v.distribution?.bind (·.toOption)) }

/-- Checks that a variable of some width has the element that a target selects, if it selects one. -/
def checkElement (target : String) (s : Selector) (width : Nat) : Except CompileError Unit :=
  match s.index with
  | some e => if width ≤ e then throw (.unknownObservationTarget target) else pure ()
  | none => pure ()

/-- The site an observation applies to, and whether its values are whole numbers. Outputs come before
inputs of the same name. -/
def observationSite (p : Program α) (declaration : List Nat) (target : String) :
    Except CompileError (Site × Bool) := do
  let unknown := CompileError.unknownObservationTarget target
  let some selector := Selector.parse? target | throw unknown
  match p.outputs.findIdx? (·.name == selector.name) with
  | some o =>
    let output := p.outputs.getD o ⟨"", false, 0⟩
    checkElement target selector output.width
    return (.output o selector.index, output.isDiscrete)
  | none =>
    let some d := p.inputIndex? selector.name | throw unknown
    match p.inputs[d]?, declaration[d]? with
    | some (v, _), some i =>
      checkElement target selector v.width
      return (.node i selector.index, v.isDiscrete)
    | _, _ => throw unknown

def bindObservation (p : Program α) (declaration : List Nat) (o : Observation α) :
    Except CompileError (SiteObservation α) := do
  let (site, isDiscrete) ← p.observationSite declaration o.target
  return ⟨site, o.constraints, o.precision, isDiscrete⟩

/-- Seed of the prior draw that the transformation is tried on. -/
def probeSeed : UInt64 := 0x5eed

/-- Prior draws made before giving up on one that succeeds. -/
def probeAttempts : Nat := 100

/-- Evaluates a model at the first prior draw that succeeds. A draw fails where the parents give a
parameter an invalid value, and is made again; one that breaks down is the end. -/
def probe {σ : Type} [RandomWords σ] (m : Model α) :
    Nat → Random σ (Except (Failure CompileError) Unit)
  | 0 => return .ok ()
  | attempts + 1 => do
    match ← m.samplePrior with
    | .ok state =>
      return (m.evaluate state).mapError (.error ∘ .evaluation) |>.map fun _ => ()
    | .error (.breakdown b) => return .error (.breakdown b)
    | .error (.error e) =>
      if attempts = 0 then return .error (.error (.invalidParameter e)) else probe m attempts

/-- Checks that there are outputs and that no name is declared twice. -/
def checkNames (p : Program α) : Except CompileError Unit := do
  if p.outputs.isEmpty then throw .noOutputs
  match firstRepeated? [] (p.inputs.map (·.1.name) ++ p.outputs.map Output.name) with
  | some name => throw (.duplicateVariable name)
  | none => pure ()

/-- The nodes of the inputs, given the order of the nodes. -/
def declarationOf (order : List Nat) : List Nat :=
  (List.range order.length).map fun d => order.idxOf d

/-- Whether an observation applies to the node of input `d` itself. -/
def isObservedInput (declaration : List Nat) (observations : List (SiteObservation α)) (d : Nat) :
    Bool :=
  observations.any fun o =>
    match o.site with
    | .node i _ => declaration[d]? == some i
    | .output _ _ => false

/-- The model of a program whose references, node order and observations are known. -/
def model (p : Program α) (parents : List (List Nat)) (order : List Nat)
    (observations : List (SiteObservation α)) : Model α :=
  let declaration := declarationOf order
  let nodes := order.filterMap fun d => p.inputs[d]?.map fun (v, role) =>
    p.node parents declaration (isObservedInput declaration observations) d v role
  let arguments := p.inputs.zipIdx.filterMap fun ((v, _), d) =>
    if v.isHyper then none else declaration[d]?
  { name := p.name
    nodes := nodes.toArray
    outputs := p.outputs
    transformation := p.transformation
    arguments := arguments
    observations := observations
    declaration := declaration }

/-- The model of a program, before the transformation is tried. -/
def assemble (p : Program α) : Except CompileError (Model α) := do
  p.checkNames
  let parents ← p.parents
  let order ← p.inputOrder parents
  p.checkLiterals order
  let observations ← p.observations.mapM (p.bindObservation (declarationOf order))
  return p.model parents order observations

/-- Compiles a program; the first check that fails is the answer. Outputs exist, names are unique,
references name declared inputs of a fitting width, there is no cycle, literal parameters make up
distributions, observations name inputs or outputs, and the transformation works on a draw from the
prior. -/
def compile (p : Program α) : Except (Failure CompileError) (Model α) := do
  let m ← p.assemble.mapError .error
  ((probe m probeAttempts).run (Xoshiro.ofSeed probeSeed)).1
  return m

end Program

end InfoFlow
