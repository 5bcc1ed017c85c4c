import InfoFlow.Inference.Run
import InfoFlow.Leakage.Convergence
import InfoFlow.Leakage.Report

namespace InfoFlow

variable {α σ : Type} [Scalar α] [RandomWords σ]

/-- The sum of two machine words, where it is one. -/
def wordSum (a b : UInt64) : Except Breakdown UInt64 :=
  if a.toNat + b.toNat < UInt64.size then .ok (a + b) else .error .wordOverflow

theorem wordSum_of_fits {a b : UInt64} (h : a.toNat + b.toNat < UInt64.size) :
    wordSum a b = .ok (a + b) := if_pos h

theorem wordSum_of_wraps {a b : UInt64} (h : ¬ a.toNat + b.toNat < UInt64.size) :
    wordSum a b = .error .wordOverflow := if_neg h

/-- The smallest number of samples that is accepted, where one more than the neighbors is a word. -/
def EstimatorParams.checkedFloor (p : EstimatorParams) : Except Breakdown UInt64 := do
  let _ ← wordSum p.neighbors 1
  return p.sampleFloor

/-- Checks that two sides are aligned and, with a checked floor, have enough samples. -/
def checkSizesChecked (secret output : Nat) (p : EstimatorParams) :
    Except (Failure LeakageError) Unit := do
  if secret ≠ output then throw (.error (.lengthMismatch secret output))
  let _ ← p.checkedFloor.mapError .breakdown
  (checkSizes secret output p).mapError .error

/-- Estimate of the mutual information between two sides that have passed the check. -/
def mutualInformationChecked (secret output : Samples α) (p : EstimatorParams) :
    Except (Failure LeakageError) α := do
  p.validate.mapError .error
  checkSizesChecked secret.size output.size p
  return (estimate secret output p).1

/-- A leakage curve whose floor is checked before anything is estimated. -/
def leakageCurveChecked (secret output : Samples α) (p : EstimatorParams) (sizes : List Nat)
    (deltas : List α) (window : Nat) (isRelative : Bool) :
    Except (Failure LeakageError) (LeakageCurve α) := do
  if secret.size ≠ output.size then throw (.error (.lengthMismatch secret.size output.size))
  let _ ← p.checkedFloor.mapError .breakdown
  (leakageCurve secret output p sizes deltas window isRelative).mapError .error

namespace Trace

/-- The entry of a secret whose samples have passed the check. -/
def reportEntryChecked (query : LeakageQuery) (output : Samples α) (secret : QueriedSecret α) :
    Except (Failure LeakageError) (ReportEntry α) := do
  checkSizesChecked secret.samples.size output.size query.params
  (reportEntry query output secret).mapError .error

/-- Answers a query with a checked floor. -/
def leakageChecked (t : Trace α) (query : LeakageQuery) :
    ExceptT (Failure LeakageError) (Except OutOfBounds) (LeakageReport α) := do
  if query.secrets.isEmpty || query.outputs.isEmpty then throw (.error .emptyQuery)
  (Queried.ofExcept query.params.validate).adapt .error
  let output ← (t.queriedOutput query.outputs).adapt .error
  let secrets ← (query.secrets.mapM t.queriedSecret).adapt .error
  let entries ← ExceptT.mk
    (.ok ((secrets.mergeSort isBefore).mapM (reportEntryChecked query output)))
  return ⟨entries, query.outputs, output.size, query.params, query.measure⟩

end Trace

/-- A chain of a run. A Markov chain that has started breaks down where its iterations are no word. -/
def runChainChecked (m : Model α) (config : InferenceConfig) (allowance : Option Nat) (chain : Nat) :
    Random σ (Except (Failure InferenceError) (ChainRun α)) := do
  let answer ← runChain m config allowance chain
  if m.drawsPrior config.strategy then return answer
  else return do
    let run ← answer
    let _ ← (wordSum config.tune config.sampleCount).mapError .breakdown
    return run

/-- Samples the inputs and outputs of a model with checked numbers of iterations. -/
def inferWithChecked (m : Model α) (config : InferenceConfig) (stream : Nat → σ) :
    Except (Failure InferenceError) (Trace α) := do
  config.validate.mapError .error
  let runs ← (List.range config.chains.toNat).mapM fun chain =>
    ((runChainChecked m config config.allowance chain).run (stream chain)).1
  return Trace.ofRuns m (!m.drawsPrior config.strategy && m.isConditioned) runs

/-- Samples the inputs and outputs of a model with checked numbers of iterations, from the streams of
`infer`. -/
def inferChecked (m : Model α) (config : InferenceConfig) :
    Except (Failure InferenceError) (Trace α) :=
  inferWithChecked m config (Xoshiro.ofSeedJumped (config.seed.getD 0))

end InfoFlow
