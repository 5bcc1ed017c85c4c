import InfoFlow.Inference.Chain
import InfoFlow.Inference.Config
import InfoFlow.Inference.Trace

namespace InfoFlow

/-- One recorded draw: the values of all nodes and the outputs at them. -/
structure Draw (α : Type) where
  state : State α
  outputs : List (List α)

/-- What a chain leaves behind. -/
structure ChainRun (α : Type) where
  draws : List (Draw α)
  acceptance : α
  divergences : Nat
  warnings : List Warning
  isTruncated : Bool

/-- Progress of a chain that draws from the prior. -/
structure PriorChain (α : Type) where
  /-- Recorded draws, latest first. -/
  draws : List (Draw α)
  divergences : Nat
  warnings : List Warning

variable {α σ : Type} [Scalar α] [RandomWords σ]

namespace PriorChain

/-- A failed draw: the variable or model it is blamed on, and why. -/
abbrev Rejection := String × String

/-- A prior draw with its outputs. -/
def attempt (m : Model α) : Random σ (Except (Failure Rejection) (Draw α)) := do
  match ← m.samplePrior with
  | .error failure => return .error (failure.map fun e => (e.subject, e.message))
  | .ok state => match m.evaluate state with
    | .ok outputs => return .ok ⟨state, outputs⟩
    | .error e => return .error (.error (m.name, e.message))

/-- Counts a failed draw, and keeps a warning unless there are enough. -/
def reject (c : PriorChain α) (chain iteration : Nat) (r : Rejection) : PriorChain α :=
  { c with
    divergences := c.divergences + 1
    warnings :=
      if c.warnings.length < maxWarnings then c.warnings ++ [⟨chain, iteration, r.1, r.2⟩]
      else c.warnings }

/-- Draws until a draw is valid, `attempts` times at most; `none` when the last one fails too. -/
def record (m : Model α) (chain iteration : Nat) :
    Nat → PriorChain α → Drawing σ (Option (PriorChain α))
  | 0, _ => return none
  | attempts + 1, c => do
    match ← Drawing.lift (attempt m) with
    | .ok draw => return some { c with draws := draw :: c.draws }
    | .error (.breakdown b) => throw b
    | .error (.error r) =>
      if attempts = 0 then return none
      else record m chain iteration attempts (c.reject chain iteration r)

/-- Records `n` draws, the first of them in the given iteration. -/
def run (m : Model α) (chain attempts : Nat) (n iteration : Nat) (c : PriorChain α) :
    Drawing σ (Option (PriorChain α)) :=
  match n with
  | 0 => return some c
  | n + 1 => do
    match ← c.record m chain iteration attempts with
    | some c => run m chain attempts n (iteration + 1) c
    | none => return none

end PriorChain

/-- The iterations of `n` that are made when only some are allowed. -/
def allowed (allowance : Option Nat) (n : Nat) : Nat := allowance.elim n (min n)

/-- A chain of prior draws. -/
def priorChain (m : Model α) (config : InferenceConfig) (allowance : Option Nat) (chain : Nat) :
    Random σ (Except (Failure InferenceError) (ChainRun α)) := do
  let attempts := config.maxInitAttempts.toNat
  let planned := config.sampleCount.toNat
  let n := allowed allowance planned
  match ← (PriorChain.run m chain attempts n 0 ⟨[], 0, []⟩).run with
  | .error b => return .error (.breakdown b)
  | .ok none => return .error (.error (.noValidSample chain attempts))
  | .ok (some c) => return .ok ⟨c.draws.reverse, 1, c.divergences, c.warnings, n < planned⟩

namespace Chain

/-- One iteration: a sweep, and then an adaptation at the end of every full window while tuning, or a
recorded draw after it. Draws are kept latest first. -/
def iterate (m : Model α) (tuning iteration : Nat) (c : Chain α) (draws : List (Draw α)) :
    Random σ (Chain α × List (Draw α)) := do
  let isTuning := iteration < tuning
  let c ← c.sweep m isTuning
  if isTuning then
    return (if (iteration + 1) % tuneInterval = 0 then c.tune else c, draws)
  else return (c, ⟨c.state, c.outputs⟩ :: draws)

/-- Runs `n` iterations, the first of them numbered `iteration`. -/
def run (m : Model α) (tuning n iteration : Nat) (c : Chain α) (draws : List (Draw α)) :
    Random σ (Chain α × List (Draw α)) :=
  match n with
  | 0 => return (c, draws)
  | n + 1 => do
    let (c, draws) ← c.iterate m tuning iteration draws
    run m tuning n (iteration + 1) c draws

end Chain

/-- A Markov chain over the posterior. -/
def markovChain (m : Model α) (config : InferenceConfig) (allowance : Option Nat) (chain : Nat) :
    Random σ (Except (Failure InferenceError) (ChainRun α)) := do
  let attempts := config.maxInitAttempts.toNat
  match ← (Chain.init m chain attempts).run with
  | .error b => return .error (.breakdown b)
  | .ok none => return .error (.error (.noValidSample chain attempts))
  | .ok (some c) =>
    let planned := config.iterations.toNat
    let n := allowed allowance planned
    let (c, draws) ← c.run m config.tune.toNat n 0 []
    return .ok ⟨draws.reverse, c.moves.rate, c.divergences, c.warnings, n < planned⟩

namespace Model

/-- Whether a run draws from the prior. -/
def drawsPrior (m : Model α) : Strategy → Bool
  | .prior => true
  | .posterior => false
  | .auto => !m.isConditioned

/-- Declared inputs in declaration order, then outputs. -/
def tracedVariables (m : Model α) : List TracedVariable :=
  let unreachable := m.unreachableSecrets
  let inputs := m.declaration.filterMap fun i => m.nodes[i]?.map fun node => {
    name := node.name
    width := node.width
    isScalar := node.isScalar
    isDiscrete := node.isDiscrete
    isHyper := node.isHyper
    role := match node.role with
      | .secret => .secret
      | .known => .known
    isReachable := !unreachable.contains node.name
  }
  let outputs := m.outputs.map fun output => {
    name := output.name
    width := output.width
    isScalar := output.width == 1
    isDiscrete := output.isDiscrete
    isHyper := false
    role := .output
    isReachable := true
  }
  inputs ++ outputs

/-- The values of all traced variables in a draw. -/
def tracedValues (m : Model α) (draw : Draw α) : List (List α) :=
  m.declaration.map (fun i => (draw.state.getD i #[]).toList) ++
    (List.range m.outputs.length).map fun o => draw.outputs.getD o []

/-- The matrices of a chain, one per traced variable. -/
def recordedMatrices (m : Model α) (draws : List (Draw α)) : List (Matrix α) :=
  let rows := draws.map m.tracedValues
  m.tracedVariables.zipIdx.map fun (info, v) =>
    Matrix.ofLists info.width (rows.map fun values => values.getD v [])

end Model

/-- Diagnostics of the elements of a variable, from the matrices of all chains. -/
def variableSummary (info : TracedVariable) (matrices : List (Matrix α)) : VariableSummary α :=
  let elements := (List.range info.width).map fun e =>
    matrices.map fun m => (m.column? e).getD []
  ⟨info.name, elements.map Diagnostics.rHat, elements.map Diagnostics.effectiveSize⟩

/-- The trace of the chains of a run, in order. -/
def Trace.ofRuns (m : Model α) (isConditioned : Bool) (runs : List (ChainRun α)) : Trace α :=
  let traced := m.tracedVariables
  let chains := runs.map fun run => m.recordedMatrices run.draws
  {
    modelName := m.name
    traced := traced
    chains := chains
    diagnostics := {
      summaries := traced.zipIdx.map fun (info, v) =>
        variableSummary info (chains.filterMap (·[v]?))
      chains := runs.zipIdx.map fun (run, i) =>
        ⟨i, run.draws.length, run.acceptance, run.divergences, run.isTruncated⟩
      warnings := runs.flatMap ChainRun.warnings
    }
    isConditioned := isConditioned
  }

/-- A chain of a run. -/
def runChain (m : Model α) (config : InferenceConfig) (allowance : Option Nat) (chain : Nat) :
    Random σ (Except (Failure InferenceError) (ChainRun α)) :=
  if m.drawsPrior config.strategy then priorChain m config allowance chain
  else markovChain m config allowance chain

/-- Samples the inputs and outputs of a model, each chain with its own stream and the iterations that a
clock allows it. The answer is the failure of the first chain that fails, or the trace. -/
def inferWithin (m : Model α) (config : InferenceConfig) (stream : Nat → σ)
    (allowance : Nat → Option Nat) : Except (Failure InferenceError) (Trace α) := do
  config.validate.mapError .error
  let runs ← (List.range config.chains.toNat).mapM fun chain =>
    ((runChain m config (allowance chain) chain).run (stream chain)).1
  return Trace.ofRuns m (!m.drawsPrior config.strategy && m.isConditioned) runs

/-- Samples the inputs and outputs of a model, each chain with its own stream. -/
def inferWith (m : Model α) (config : InferenceConfig) (stream : Nat → σ) :
    Except (Failure InferenceError) (Trace α) :=
  inferWithin m config stream fun _ => config.allowance

/-- Samples the inputs and outputs of a model. Streams of different chains do not overlap; runs that
name no seed use the seed 0. -/
def infer (m : Model α) (config : InferenceConfig) : Except (Failure InferenceError) (Trace α) :=
  inferWith m config (Xoshiro.ofSeedJumped (config.seed.getD 0))

end InfoFlow
