import InfoFlow.CommandLine.Options
import InfoFlow.Leakage.Convergence
import InfoFlow.Leakage.Vulnerability
import InfoFlow.SampleTable

namespace InfoFlow

/-- Why the command fails. -/
inductive CommandError where
  | leakage (e : LeakageError)
  | data (e : DataError)
  deriving Repr, DecidableEq

def CommandError.message : CommandError → String
  | leakage e => e.message
  | data e => e.message

/-- What the command prints, and why it fails after that, if it does. -/
structure Transcript where
  lines : List String
  error : Option CommandError
  deriving Repr, DecidableEq

namespace Transcript

def failed (e : CommandError) : Transcript := ⟨[], some e⟩

/-- The exit code of the command. -/
def exitCode (t : Transcript) : UInt32 := if t.error.isSome then 1 else 0

/-- The line that reports the failure. -/
def errorLine? (t : Transcript) : Option String := t.error.map fun e => "[!] " ++ e.message

end Transcript

/-- The fields of a text between commas. -/
def splitCommas (cs : List Char) : List (List Char) :=
  match cs with
  | [] => [[]]
  | ',' :: rest => [] :: splitCommas rest
  | c :: rest =>
    match splitCommas rest with
    | field :: fields => (c :: field) :: fields
    | [] => [[c]]

variable {α : Type} [Scalar α]

/-- Deltas, separated by commas. -/
def readDeltas (s : String) : Except LeakageError (List α) :=
  (splitCommas s.toList).mapM fun field =>
    match Decimal.read? (String.ofList (Text.trim field)) with
    | some delta => .ok delta
    | none => .error (.invalidParams (.unreadableDelta (String.ofList field)))

/-- The parameters of the estimate. -/
def EstimateRequest.params (r : EstimateRequest) : Except LeakageError EstimatorParams := do
  let estimator ← Estimator.read? r.estimator
  let p : EstimatorParams := {
    neighbors := r.neighbors
    units := if r.isNats then .nats else .bits
    minSamples := r.minSamples
    estimator := estimator
    seed := r.seed
  }
  p.validate
  return p

/-- The report on a curve. -/
def curveLines (c : LeakageCurve α) : List String :=
  ["n, mi"] ++
  (c.points.map fun p => s!"{p.samples}, {Scalar.text p.estimate}") ++
  (c.converged.map fun (delta, size) =>
    match size with
    | some n => s!"[*] {Scalar.text delta}-convergence after {n} samples"
    | none => s!"[*] no {Scalar.text delta}-convergence") ++
  [""]

/-- The curve that is asked for, from the least number of samples to all of them. -/
def requestedCurve (r : EstimateRequest) (p : EstimatorParams) (secret output : Samples α)
    (steps : UInt64) : Except LeakageError (LeakageCurve α) := do
  let deltas ← readDeltas r.deltas
  let sizes := linearSizesWith α p.sampleFloor.toNat secret.size steps.toNat
  leakageCurve secret output p sizes deltas r.window.toNat !r.isAbsolute

/-- Reports on the mutual information, after its curve if one is asked for. -/
def reportMutualInformation (r : EstimateRequest) (p : EstimatorParams)
    (secret output : Samples α) : Transcript :=
  let curve : Except LeakageError (List String) := match r.curve with
    | some steps => (requestedCurve r p secret output steps).map curveLines
    | none => .ok []
  match curve with
  | .error e => .failed (.leakage e)
  | .ok lines =>
    match mutualInformation secret output p with
    | .error e => ⟨lines, some (.leakage e)⟩
    | .ok mi =>
      let unit := match p.units with
        | .bits => "bits"
        | .nats => "nats"
      ⟨lines ++ [s!"Mutual information: {Scalar.text mi} {unit}"], none⟩

/-- Reports on the vulnerability of the secret; each distinct value counts as a symbol. -/
def reportVulnerability (p : EstimatorParams) (secret output : Samples α) : Transcript :=
  let v : Vulnerability α := .ofSamples secret.ids output.ids
  let line (name : String) (x : α) : String := s!"{name}: {Scalar.text x}"
  let security := match v.bayesSecurity? with
    | some x => line "Bayes security measure" x
    | none => "Bayes security measure: undefined (constant secret)"
  ⟨[line "Prior vulnerability" v.prior, line "Posterior vulnerability" v.posterior,
    line "Random guessing error" v.randomGuessing, line "Bayes risk" v.bayesRisk,
    line "Multiplicative Leakage" v.multiplicativeLeakage,
    line "Additive Leakage" v.additiveLeakage, security,
    line "Min-entropy Leakage" (v.minEntropyLeakage p.units)], none⟩

/-- Answers a request about the samples in a file, of which the bytes or the failure to read them are
given. The parameters are checked before the file. -/
def EstimateRequest.report (α : Type) [Scalar α] (r : EstimateRequest)
    (file : Except DataError (List UInt8)) : Transcript :=
  match r.params with
  | .error e => .failed (.leakage e)
  | .ok p =>
    match file >>= SampleTable.ofBytes with
    | .error e => .failed (.data e)
    | .ok (table : SampleTable α) =>
      let secret := Samples.detect (.ofVector table.secrets)
      let output := Samples.detect table.outputs
      match r.command with
      | .mutualInformation => reportMutualInformation r p secret output
      | .vulnerability => reportVulnerability p secret output

end InfoFlow
