import InfoFlow.Belief.Analysis

/-!
Search for the belief under which a program leaks the most.

Every combination of one family per generator is searched on its own. A search measures a few random
beliefs and climbs from the best of them: each parameter is moved up and down by a step, the first move
that raises the leakage is taken, and the step is halved after a round of moves without improvement.
Below a least step the search starts again from a fresh random belief, until its evaluations are used
up. Moves to beliefs that are invalid or do not cover enough are skipped, and cost nothing.
-/

namespace InfoFlow

/-- Parameters of a search. Counts are machine words. -/
structure SearchConfig (α : Type) where
  /-- Random beliefs that are measured before climbing. -/
  initial : UInt64
  /-- Evaluations per combination, random beliefs included. -/
  evaluations : UInt64
  /-- First step: a fraction of the width of the range for locations, of the value for positive
  parameters, of one half for probabilities. -/
  initialStep : α
  /-- Climbing stops once the step is below it. -/
  minStep : α
  cores : UInt64
  seed : UInt64

/-- How a parameter is moved. -/
inductive Move where
  | location
  /-- By whole numbers. -/
  | point
  | positive
  | count
  | probability
  deriving Repr, DecidableEq

/-- How each parameter of a family is moved. -/
def Family.moves : Family → List Move
  | bernoulli | geometric => [.probability]
  | binomial => [.count, .probability]
  | betaBinomial => [.count, .positive, .positive]
  | poisson | exponential => [.positive]
  | discreteUniform => [.point, .point]
  | normal | laplace | cauchy => [.location, .positive]
  | uniform => [.location, .location]
  | truncatedNormal => [.location, .positive, .location, .location]
  | studentT => [.positive, .location, .positive]
  | beta | gamma => [.positive, .positive]
  | categorical | constant => []

variable {α σ : Type} [Scalar α] [RandomWords σ]

namespace SearchConfig

def standard : SearchConfig α := ⟨8, 60, 0.25, 1e-3, 1, 0⟩

/-- The first fault of a configuration. -/
def validate (c : SearchConfig α) : Except InferenceError Unit := do
  if c.initial = 0 then throw (.invalidConfig .noInitialBeliefs)
  if c.evaluations < c.initial then throw (.invalidConfig .tooFewEvaluations)
  if !(0 < c.minStep && c.minStep ≤ c.initialStep && c.initialStep ≤ 1) then
    throw (.invalidConfig .stepsOutOfOrder)
  if c.cores = 0 then throw (.invalidConfig .noCores)

end SearchConfig

/-- One distribution per generator, and the leakage measured under them. -/
structure MeasuredBelief (α : Type) where
  distributions : List (Distribution α)
  outcome : Outcome α

def MeasuredBelief.score (b : MeasuredBelief α) : α := b.outcome.score

/-- The best belief of a combination of families. -/
structure CombinationOutcome (α : Type) where
  families : List Family
  best : Outcome α
  /-- Leakage of every measured belief, in order. -/
  scores : List α

/-- A move of one parameter of one generator's distribution. -/
structure ParameterMove where
  generator : Nat
  parameter : Nat
  isUp : Bool
  deriving Repr, DecidableEq

/-- What a search goes by: its generators, and how distributions for them are measured. -/
structure SearchSetting (α : Type) where
  generators : List (ScalarGenerator α)
  evaluations : Nat
  initialStep : α
  minStep : α
  measure : List (Distribution α) → Except (AnalysisError α) (Outcome α)

namespace Search

/-- A parameter moved by step `h`, kept within the bounds of its kind. -/
def shift (value : α) (move : Move) (h : α) (isUp : Bool) (r : ValueRange α) : α :=
  let sign : α := if isUp then 1 else -1
  let factor := if isUp then 1 + h else 1 / (1 + h)
  match move with
  | .location => Scalar.min (Scalar.max (value + sign * h * r.width) r.lower) r.upper
  | .point =>
    let moved := Scalar.round (value + sign * Scalar.max (h * r.width) 1)
    Scalar.min (Scalar.max moved (Scalar.ceil r.lower)) (Scalar.floor r.upper)
  | .positive => Scalar.max (value * factor) Belief.minPositive
  | .count =>
    let moved := Scalar.round (value * factor)
    let moved := if isUp then Scalar.max moved (value + 1) else Scalar.min moved (value - 1)
    Scalar.min (Scalar.max moved 1) (Scalar.max (Scalar.floor r.upper) 1)
  | .probability =>
    Scalar.min (Scalar.max (value + sign * h * 0.5) Belief.minProbability) Belief.maxProbability

/-- A distribution with parameter `p` moved; none if that changes nothing, or is not admissible. -/
def moved? (g : ScalarGenerator α) (d : Distribution α) (p : Nat) (isUp : Bool) (h : α) :
    Option (Distribution α) := do
  let move ← d.family.moves[p]?
  let values := d.parameterValues
  let value ← values[p]?
  let shifted := shift value move h isUp g.range
  if shifted == value then none
  else
    let d ← (Distribution.build d.family (values.set p shifted) none).toOption
    if g.isAdequate (g.coverage d) then some d else none

/-- The distributions of a belief after a move; none if it changes nothing, or is not admissible. -/
def propose? (generators : List (ScalarGenerator α)) (current : List (Distribution α))
    (move : ParameterMove) (h : α) : Option (List (Distribution α)) := do
  let g ← generators[move.generator]?
  let d ← current[move.generator]?
  return current.set move.generator (← moved? g d move.parameter move.isUp h)

/-- All moves of a belief, up before down. -/
def movesOf (current : List (Distribution α)) : List ParameterMove :=
  current.zipIdx.flatMap fun (d, g) =>
    (List.range d.family.moves.length).flatMap fun p => [⟨g, p, true⟩, ⟨g, p, false⟩]

/-- Tries moves until one raises the leakage: the belief moved to, if any, and the log of all measured
beliefs. -/
def firstImprovement (s : SearchSetting α) (point : MeasuredBelief α) (h : α) :
    List ParameterMove → List (MeasuredBelief α) →
      Except (AnalysisError α) (Option (MeasuredBelief α) × List (MeasuredBelief α))
  | [], log => .ok (none, log)
  | move :: rest, log =>
    if s.evaluations ≤ log.length then .ok (none, log)
    else
      match propose? s.generators point.distributions move h with
      | none => firstImprovement s point h rest log
      | some distributions =>
        match s.measure distributions with
        | .error e => .error e
        | .ok outcome =>
          let tried : MeasuredBelief α := ⟨distributions, outcome⟩
          if point.score < tried.score then .ok (some tried, log ++ [tried])
          else firstImprovement s point h rest (log ++ [tried])

/-- Climbs from a belief until the step is below the least one, or the evaluations are used up. Each
round raises the leakage or halves the step. -/
def climb (s : SearchSetting α) :
    Nat → MeasuredBelief α → α → List (MeasuredBelief α) →
      Except (AnalysisError α) (MeasuredBelief α × List (MeasuredBelief α))
  | 0, point, _, log => .ok (point, log)
  | fuel + 1, point, h, log =>
    if log.length < s.evaluations && s.minStep ≤ h then
      match firstImprovement s point h (movesOf point.distributions) log with
      | .error e => .error e
      | .ok (some better, log) => climb s fuel better h log
      | .ok (none, log) => climb s fuel point (h / 2) log
    else .ok (point, log)

/-- Draws one distribution of each family. -/
def drawDistributions :
    List (ScalarGenerator α × Family) →
      Random σ (Except InsufficientCoverage (List (Distribution α)))
  | [] => return .ok []
  | (g, f) :: rest => do
    match ← g.drawFamily f with
    | .error e => return .error e
    | .ok (d, _) =>
      match ← drawDistributions rest with
      | .error e => return .error e
      | .ok ds => return .ok (d :: ds)

/-- Measures a random belief of the given families, and adds it to the log; the log stays as it is if
none can be drawn. -/
def randomPoint (s : SearchSetting α) (families : List Family) (log : List (MeasuredBelief α)) :
    Random σ (Except (AnalysisError α)
      (Except InsufficientCoverage (MeasuredBelief α) × List (MeasuredBelief α))) := do
  match ← drawDistributions (s.generators.zip families) with
  | .error e => return .ok (.error e, log)
  | .ok distributions =>
    match s.measure distributions with
    | .error e => return .error e
    | .ok outcome =>
      let point : MeasuredBelief α := ⟨distributions, outcome⟩
      return .ok (.ok point, log ++ [point])

/-- The better of a belief so far and another one; the earlier one on ties. -/
def better (best : Option (MeasuredBelief α)) (point : MeasuredBelief α) : MeasuredBelief α :=
  match best with
  | some best => if best.score < point.score then point else best
  | none => point

/-- The best of the first random beliefs, or the last failure to draw one. -/
structure Start (α : Type) where
  best : Option (MeasuredBelief α)
  failure : Option InsufficientCoverage
  log : List (MeasuredBelief α)

/-- Measures `n` random beliefs. -/
def initialPoints (s : SearchSetting α) (families : List Family) :
    Nat → Start α → Random σ (Except (AnalysisError α) (Start α))
  | 0, start => return .ok start
  | n + 1, start => do
    match ← randomPoint s families start.log with
    | .error e => return .error e
    | .ok (.ok point, log) =>
      initialPoints s families n { start with best := some (better start.best point), log }
    | .ok (.error e, log) =>
      initialPoints s families n { start with failure := some e, log }

/-- The rounds after which a climb is given up. No run gets that far: each round takes one of the
evaluations, of which there are less than `2 ^ 64`, or halves the step. -/
def climbRounds : Nat := 2 * UInt64.size

/-- Climbs and restarts until the evaluations are used up, or no belief can be drawn. Every restart
adds to the log, so that as many rounds as there are evaluations are enough. -/
def restarts (s : SearchSetting α) (families : List Family) :
    Nat → MeasuredBelief α → MeasuredBelief α → List (MeasuredBelief α) →
      Random σ (Except (AnalysisError α) (MeasuredBelief α × List (MeasuredBelief α)))
  | 0, best, _, log => return .ok (best, log)
  | fuel + 1, best, point, log => do
    if s.evaluations ≤ log.length then return .ok (best, log)
    match climb s climbRounds point s.initialStep log with
    | .error e => return .error e
    | .ok (top, log) =>
      let best := better (some best) top
      if s.evaluations ≤ log.length then return .ok (best, log)
      match ← randomPoint s families log with
      | .error e => return .error e
      | .ok (.error _, log) => return .ok (best, log)
      | .ok (.ok fresh, log) =>
        restarts s families fuel (better (some best) fresh) fresh log

/-- The best belief of a combination of families, and all beliefs that were measured, in order. -/
def explore (s : SearchSetting α) (initial : Nat) (families : List Family) :
    Random σ (Except (AnalysisError α) (MeasuredBelief α × List (MeasuredBelief α))) := do
  match ← initialPoints s families initial ⟨none, none, []⟩ with
  | .error e => return .error e
  | .ok start =>
    match start.best, start.failure with
    | some point, _ => restarts s families s.evaluations point point start.log
    | none, some e => return .error (.belief (.insufficientCoverage e))
    | none, none => return .error (.inference (.invalidConfig .noInitialDraw))

/-- Searches one combination of families. -/
def searchCombination (s : SearchSetting α) (initial : Nat) (families : List Family) :
    Random σ (Except (AnalysisError α) (CombinationOutcome α)) := do
  return (← explore s initial families).map fun (best, log) =>
    ⟨families, best.outcome, log.map MeasuredBelief.score⟩

/-- All ways to take one entry of each list, the last one varying fastest. -/
def combinations {β : Type} : List (List β) → List (List β)
  | [] => [[]]
  | xs :: rest => xs.flatMap fun x => (combinations rest).map (x :: ·)

/-- Leakage under a belief that is given by one distribution per generator. -/
def measureDistributions (generators : List (ScalarGenerator α)) (build : ProgramBuilder α)
    (config : InferenceConfig) (query : LeakageQuery) (distributions : List (Distribution α)) :
    Except (AnalysisError α) (Outcome α) := do
  let pairs := generators.zip distributions
  let declared ← pairs.mapM fun (g, d) =>
    (Variable.ofDistribution g.name d 1).mapError (.belief ∘ .invalidParameter)
  let coverages := pairs.map fun (g, d) => g.coverage d
  measureCandidate build config query ⟨declared, coverages.min?.getD 0⟩

end Search

/-- What a search goes by under a configuration. -/
def SearchConfig.setting (config : SearchConfig α) (generators : List (ScalarGenerator α))
    (build : ProgramBuilder α) (inference : InferenceConfig) (query : LeakageQuery) :
    SearchSetting α where
  generators := generators
  evaluations := config.evaluations.toNat
  initialStep := config.initialStep
  minStep := config.minStep
  measure := Search.measureDistributions generators build inference query

/-- Searches every combination of one reachable family per generator, each with its own stream. The
answer is the error of the first combination that fails, or their outcomes. -/
def search (generators : List (ScalarGenerator α)) (build : ProgramBuilder α)
    (config : SearchConfig α) (inference : InferenceConfig) (query : LeakageQuery) :
    Except (AnalysisError α) (List (CombinationOutcome α)) := do
  config.validate.mapError .inference
  if generators.isEmpty then throw (.inference (.invalidConfig .noGenerators))
  let setting := config.setting generators build inference query
  let combinations := Search.combinations (generators.map ScalarGenerator.reachableFamilies)
  combinations.zipIdx.mapM fun (families, i) =>
    ((Search.searchCombination setting config.initial.toNat families).run
      (Xoshiro.ofSeedJumped config.seed i)).1

/-- The combination whose best belief leaks the most, the first one on ties. -/
def strongestCombination? (outcomes : List (CombinationOutcome α)) :
    Option (CombinationOutcome α) :=
  firstHighest (fun c => c.best.score) outcomes

end InfoFlow
