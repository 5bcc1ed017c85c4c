import InfoFlow.Belief.Generator
import InfoFlow.Inference.Run
import InfoFlow.Leakage.Report
import InfoFlow.Model.Compile

namespace InfoFlow

/-- Why an analysis fails. -/
inductive AnalysisError (α : Type) where
  | belief (e : BeliefError)
  | observation (e : ObservationError α)
  | compilation (e : CompileError)
  | inference (e : InferenceError)
  | leakage (e : LeakageError)
  /-- The trace of the run does not hold what the query asks for. -/
  | malformedTrace
  /-- The compilation or the run breaks down. -/
  | breakdown (b : Breakdown)

/-- A failure of one of the steps of an analysis. -/
def AnalysisError.ofFailure {α ε : Type} (ofError : ε → AnalysisError α) :
    Failure ε → AnalysisError α
  | .error e => ofError e
  | .breakdown b => .breakdown b

/-- Leakage under one belief. -/
structure Outcome (α : Type) where
  candidate : Candidate α
  report : LeakageReport α

variable {α : Type} [Scalar α]

/-- The highest score of the report. -/
def Outcome.score (o : Outcome α) : α := o.report.highestScore

/-- A program for each belief. -/
abbrev ProgramBuilder (α : Type) := Candidate α → Except (AnalysisError α) (Program α)

/-- The answer to a query on a trace. -/
def answer (t : Trace α) (query : LeakageQuery) : Except (AnalysisError α) (LeakageReport α) :=
  match (t.leakage query).run with
  | .ok (.ok report) => .ok report
  | .ok (.error e) => .error (.leakage e)
  | .error _ => .error .malformedTrace

/-- Leakage of the program that is built for a belief. -/
def measureCandidate (build : ProgramBuilder α) (config : InferenceConfig) (query : LeakageQuery)
    (candidate : Candidate α) : Except (AnalysisError α) (Outcome α) := do
  let program ← build candidate
  let model ← program.compile.mapError (.ofFailure .compilation)
  let trace ← (infer model config).mapError (.ofFailure .inference)
  return ⟨candidate, ← answer trace query⟩

/-- Measures candidates one after the other. The first error stops the analysis, be it that of a
candidate or that of its measurement. -/
def analyze (candidates : List (Except BeliefError (Candidate α))) (build : ProgramBuilder α)
    (config : InferenceConfig) (query : LeakageQuery) :
    Except (AnalysisError α) (List (Outcome α)) :=
  candidates.mapM fun candidate => do
    measureCandidate build config query (← candidate.mapError .belief)

/-- The outcome of the belief under which the program leaks the most, the first one on ties. -/
def strongest? (outcomes : List (Outcome α)) : Option (Outcome α) :=
  firstHighest Outcome.score outcomes

end InfoFlow
