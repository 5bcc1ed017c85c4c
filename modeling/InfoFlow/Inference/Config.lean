namespace InfoFlow

/-- What a chain draws from. -/
inductive Strategy where
  /-- The prior, or the posterior if there are observations. -/
  | auto
  /-- The posterior, by Markov chains. -/
  | posterior
  /-- The prior, whatever the observations. -/
  | prior
  deriving Repr, DecidableEq

/-- A bound on the time of a run. -/
structure TimeBudget where
  seconds : UInt64
  nanoseconds : UInt32
  deriving Repr, DecidableEq

/-- Whether nothing of a budget is left before anything is done. -/
def TimeBudget.isSpent (b : TimeBudget) : Bool := b.seconds == 0 && b.nanoseconds == 0

/-- Parameters of a run. Counts are machine words. -/
structure InferenceConfig where
  /-- Draws kept per chain. -/
  sampleCount : UInt64 := 1000
  chains : UInt64 := 2
  /-- Iterations per chain that adapt step scales and are not kept. -/
  tune : UInt64 := 500
  strategy : Strategy := .auto
  cores : UInt64 := 1
  seed : Option UInt64 := none
  /-- Prior draws that a chain may take to find a valid one. -/
  maxInitAttempts : UInt64 := 1000
  timeBudget : Option TimeBudget := none
  deriving Repr, DecidableEq

/-- What is wrong with the configuration of a run, or of a search over runs. -/
inductive ConfigFault where
  | noSamples
  | noChains
  | noCores
  | noInitAttempts
  | noInitialBeliefs
  | tooFewEvaluations
  | stepsOutOfOrder
  | noGenerators
  | noInitialDraw
  deriving Repr, DecidableEq

def ConfigFault.reason : ConfigFault → String
  | noSamples => "sample_count must be positive"
  | noChains => "at least one chain is required"
  | noCores => "cores must be positive"
  | noInitAttempts => "max_init_attempts must be positive"
  | noInitialBeliefs => "at least one initial belief is required"
  | tooFewEvaluations => "evaluations must cover the initial beliefs"
  | stepsOutOfOrder => "steps must satisfy 0 < min_step <= initial_step <= 1"
  | noGenerators => "at least one generator is required"
  | noInitialDraw => "no initial belief was drawn"

/-- Why a run has no trace. -/
inductive InferenceError where
  | invalidConfig (fault : ConfigFault)
  | noValidSample (chain attempts : Nat)
  deriving Repr, DecidableEq

def InferenceError.message : InferenceError → String
  | invalidConfig fault => s!"invalid inference configuration: {fault.reason}"
  | noValidSample chain attempts =>
    s!"chain {chain} found no valid sample after {attempts} attempts"

namespace InferenceConfig

/-- The first fault of a configuration. -/
def validate (c : InferenceConfig) : Except InferenceError Unit := do
  if c.sampleCount = 0 then throw (.invalidConfig .noSamples)
  if c.chains = 0 then throw (.invalidConfig .noChains)
  if c.cores = 0 then throw (.invalidConfig .noCores)
  if c.maxInitAttempts = 0 then throw (.invalidConfig .noInitAttempts)

/-- The iterations that the time budget leaves to every chain, if it is certain to run out: none where
it is spent from the start. Other budgets last for the whole run. -/
def allowance (c : InferenceConfig) : Option Nat :=
  if c.timeBudget.any TimeBudget.isSpent then some 0 else none

/-- Iterations of a Markov chain, as a machine word. -/
def iterations (c : InferenceConfig) : UInt64 := c.tune + c.sampleCount

end InferenceConfig

end InfoFlow
