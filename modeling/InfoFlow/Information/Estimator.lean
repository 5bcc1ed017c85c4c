import InfoFlow.Scalar.Basic
import InfoFlow.Text.Case

namespace InfoFlow

/-- Units of information. -/
inductive Units where
  | nats
  | bits
  deriving Repr, DecidableEq

namespace Units

/-- A quantity in nats, in these units. -/
def ofNats {α : Type} [Scalar α] (units : Units) (x : α) : α :=
  match units with
  | nats => x
  | bits => x / Scalar.ln2

def name : Units → String
  | nats => "Nats"
  | bits => "Bits"

end Units

/-- How mutual information is estimated. -/
inductive Estimator where
  /-- Chosen by whether secret and output are discrete. -/
  | auto
  | continuous
  | discrete
  | mixed
  deriving Repr, DecidableEq

namespace Estimator

/-- The estimator for samples of some kinds. -/
def resolve (e : Estimator) (isSecretDiscrete isOutputDiscrete : Bool) : Estimator :=
  match e with
  | auto => match isSecretDiscrete, isOutputDiscrete with
    | true, true => discrete
    | false, false => continuous
    | _, _ => mixed
  | forced => forced

def name : Estimator → String
  | auto => "auto"
  | continuous => "continuous"
  | discrete => "discrete"
  | mixed => "mixed"

end Estimator

/-- What is wrong with the parameters of an estimate, of a curve or of a query. -/
inductive ParamsFault where
  | noNeighbors
  | unknownEstimator (name : String)
  | noDeltas
  | deltasNotPositive
  | noWindow
  | pointsMustGrow (samples last : Nat)
  | unreadableDelta (text : String)
  /-- Outputs with different numbers of samples. -/
  | unevenOutputs
  deriving Repr, DecidableEq

def ParamsFault.reason : ParamsFault → String
  | noNeighbors => "n_neigh must be at least 1"
  | unknownEstimator name => s!"unknown estimator `{name}`"
  | noDeltas => "no convergence deltas"
  | deltasNotPositive => "convergence deltas must be positive"
  | noWindow => "q must be at least 1"
  | pointsMustGrow samples last => s!"curve points must grow: {samples} samples after {last}"
  | unreadableDelta text => s!"cannot parse delta `{text}`"
  | unevenOutputs => "ShapeError/IncompatibleShape: incompatible shapes"

/-- Why leakage is not estimated. -/
inductive LeakageError where
  | unknownVariable (selector : String)
  | lengthMismatch (secret output : Nat)
  | insufficientSamples (available required : Nat)
  | invalidParams (fault : ParamsFault)
  | emptyQuery
  deriving Repr, DecidableEq

def LeakageError.message : LeakageError → String
  | unknownVariable selector => s!"unknown variable `{selector}`"
  | lengthMismatch secret output => s!"secret has {secret} samples but output has {output}"
  | insufficientSamples available required =>
    s!"{available} samples available, at least {required} are required"
  | invalidParams fault => s!"invalid estimator parameters: {fault.reason}"
  | emptyQuery => "a leakage query needs at least one secret and one output"

/-- The estimator of a name, in any case. -/
def Estimator.read? (text : String) : Except LeakageError Estimator :=
  match Text.lower text with
  | "auto" => .ok .auto
  | "continuous" | "ksg" => .ok .continuous
  | "discrete" => .ok .discrete
  | "mixed" => .ok .mixed
  | name => .error (.invalidParams (.unknownEstimator name))

/-- Parameters of an estimate. Counts are machine words. -/
structure EstimatorParams where
  /-- Neighbors that the nearest-neighbor estimators look at. -/
  neighbors : UInt64 := 20
  units : Units := .bits
  minSamples : UInt64 := 100
  estimator : Estimator := .auto
  /-- Seed of the noise on continuous samples. -/
  seed : UInt64 := 0
  deriving Repr, DecidableEq

namespace EstimatorParams

def validate (p : EstimatorParams) : Except LeakageError Unit :=
  if p.neighbors = 0 then .error (.invalidParams .noNeighbors) else .ok ()

/-- The smallest number of samples that is accepted: enough for every neighbor to exist, as a machine
word. -/
def sampleFloor (p : EstimatorParams) : UInt64 :=
  if p.minSamples ≤ p.neighbors + 1 then p.neighbors + 1 else p.minSamples

end EstimatorParams

end InfoFlow
