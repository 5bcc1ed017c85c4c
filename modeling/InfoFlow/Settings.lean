import InfoFlow.Belief.Search
import InfoFlow.Document.Decoder

namespace InfoFlow

open Decoder

/-- A time span: whole seconds and nanoseconds. Both are needed, and nothing else may be given. A span
beyond the largest number of seconds is unreadable. -/
def TimeBudget.ofDocument? : Decoder TimeBudget := fun d => do
  let isExact := match d with
    | .record fields => fields.all fun (name, _) => name == "secs" || name == "nanos"
    | .list items => items.length = 2
    | _ => false
  if !isExact then none
  let seconds ← required d 0 "secs" word
  let nanoseconds ← required d 1 "nanos" halfWord
  if seconds.toNat + nanoseconds.toNat / 1000000000 < UInt64.size then
    some ⟨seconds, nanoseconds⟩
  else none

def Strategy.ofDocument? : Decoder Strategy :=
  variant [("Auto", .auto), ("Metropolis", .posterior), ("Prior", .prior)]

/-- A configuration. Fields that are missing have their defaults, as do those at the end of a list
that is shorter than the structure. -/
def InferenceConfig.ofDocument? : Decoder InferenceConfig := fun d => do
  if !isStructure 8 d then none
  let standard : InferenceConfig := {}
  return {
    sampleCount := ← withDefault d 0 "sample_count" word standard.sampleCount
    chains := ← withDefault d 1 "chains" word standard.chains
    tune := ← withDefault d 2 "tune" word standard.tune
    strategy := ← withDefault d 3 "sampler" Strategy.ofDocument? standard.strategy
    cores := ← withDefault d 4 "cores" word standard.cores
    seed := ← withDefault d 5 "seed" (optional word) standard.seed
    maxInitAttempts := ← withDefault d 6 "max_init_attempts" word standard.maxInitAttempts
    timeBudget := ← withDefault d 7 "time_budget" (optional TimeBudget.ofDocument?)
      standard.timeBudget
  }

def EstimatorParams.ofDocument? : Decoder EstimatorParams := fun d => do
  if !isStructure 5 d then none
  let standard : EstimatorParams := {}
  return {
    neighbors := ← withDefault d 0 "n_neigh" word standard.neighbors
    units := ← withDefault d 1 "units" (variant [("Nats", .nats), ("Bits", .bits)]) standard.units
    minSamples := ← withDefault d 2 "min_samples" word standard.minSamples
    estimator := ← withDefault d 3 "estimator"
      (variant [("Auto", .auto), ("Continuous", .continuous), ("Discrete", .discrete),
        ("Mixed", .mixed)]) standard.estimator
    seed := ← withDefault d 4 "seed" word standard.seed
  }

def LeakageQuery.ofDocument? : Decoder LeakageQuery := fun d => do
  if !isStructure 4 d then none
  return {
    secrets := ← required d 0 "secrets" (list Document.text?)
    outputs := ← required d 1 "outputs" (list Document.text?)
    params := ← required d 2 "params" EstimatorParams.ofDocument?
    measure := ← required d 3 "measure"
      (variant [("MutualInformation", .mutualInformation), ("MinEntropy", .minEntropy)])
  }

variable {α : Type} [Scalar α]

def SearchConfig.ofDocument? : Decoder (SearchConfig α) := fun d => do
  if !isStructure 6 d then none
  let standard : SearchConfig α := .standard
  return {
    initial := ← withDefault d 0 "initial" word standard.initial
    evaluations := ← withDefault d 1 "evaluations" word standard.evaluations
    initialStep := ← withDefault d 2 "initial_step" Document.number? standard.initialStep
    minStep := ← withDefault d 3 "min_step" Document.number? standard.minStep
    cores := ← withDefault d 4 "cores" word standard.cores
    seed := ← withDefault d 5 "seed" word standard.seed
  }

def CoveragePolicy.ofDocument? : Decoder (CoveragePolicy α) := fun d => do
  if !isStructure 4 d then none
  let standard : CoveragePolicy α := .standard
  return {
    minimum := ← withDefault d 0 "minimum_coverage" word standard.minimum
    massFloor := ← withDefault d 1 "mass_floor" Document.number? standard.massFloor
    maxAttempts := ← withDefault d 2 "max_attempts" word standard.maxAttempts
    maxPoints := ← withDefault d 3 "max_points" word standard.maxPoints
  }

end InfoFlow
