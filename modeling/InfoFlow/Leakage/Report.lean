import InfoFlow.Inference.Trace
import InfoFlow.Information.Samples
import InfoFlow.Leakage.Vulnerability

namespace InfoFlow

/-- What a query measures. -/
inductive Measure where
  | mutualInformation
  /-- Min-entropy leakage of the vulnerability. -/
  | minEntropy
  deriving Repr, DecidableEq

def Measure.name : Measure → String
  | mutualInformation => "MutualInformation"
  | minEntropy => "MinEntropy"

/-- A question about a trace. Secrets and outputs are selectors; all outputs are joined into one. -/
structure LeakageQuery where
  secrets : List String
  outputs : List String
  params : EstimatorParams
  measure : Measure
  deriving Repr, DecidableEq

/-- Leakage about one secret, and the estimator that was used. -/
structure ReportEntry (α : Type) where
  secret : String
  score : α
  estimator : Estimator
  deriving Repr, DecidableEq

/-- Answer to a query; entries stand in the order in which the secrets were declared. -/
structure LeakageReport (α : Type) where
  entries : List (ReportEntry α)
  outputs : List String
  sampleSize : Nat
  params : EstimatorParams
  measure : Measure

variable {α : Type} [Scalar α]

/-- The first of the entries that no later entry beats: scanning from the left, an entry gives way to
a later one unless its score is at least as large. -/
def firstHighest {β : Type} (score : β → α) (xs : List β) : Option β :=
  xs.foldl (fun best x =>
    match best with
    | some b => if score x ≤ score b then best else some x
    | none => some x) none

namespace LeakageReport

/-- A report of given scores. -/
def ofScores (scores : List (String × α)) : LeakageReport α :=
  ⟨scores.map fun (secret, score) => ⟨secret, score, .auto⟩, [], 0, {}, .mutualInformation⟩

/-- The secret that leaks the most, the first one on ties, and its score. -/
def highest? (r : LeakageReport α) : Option (String × α) :=
  (firstHighest ReportEntry.score r.entries).map fun e => (e.secret, e.score)

/-- The highest score; 0 without entries. -/
def highestScore (r : LeakageReport α) : α := (r.highest?.map (·.2)).getD 0

/-- Whether all scores are finite, so that a notation without infinities can hold the report. -/
def isFinite (r : LeakageReport α) : Bool := r.entries.all fun e => Scalar.isFinite e.score

/-- The score of a secret, that of its first entry. -/
def score? (r : LeakageReport α) (secret : String) : Option α :=
  (r.entries.find? (·.secret == secret)).map ReportEntry.score

/-- Scores by secret, in order of the names; the last entry of a secret counts. -/
def toMap (r : LeakageReport α) : List (String × α) :=
  let names := (r.entries.map ReportEntry.secret).eraseDups.mergeSort fun a b => !(b < a)
  names.filterMap fun name =>
    (r.entries.reverse.find? (·.secret == name)).map fun e => (name, e.score)

end LeakageReport

/-- A secret of a query: where it stands in the trace, and its samples. -/
structure QueriedSecret (α : Type) where
  selector : String
  position : Nat
  element : Nat
  samples : Samples α
  isReachable : Bool

/-- A query fails with an error, or because the trace is malformed. -/
abbrev Queried := ExceptT LeakageError (Except OutOfBounds)

namespace Queried

/-- The answer of a lookup, or the error for a selector that names nothing. -/
def lookup {β : Type} (selector : String) (l : Lookup β) : Queried β :=
  ExceptT.mk (l.run.map fun
    | some b => .ok b
    | none => .error (.unknownVariable selector))

def ofExcept {β : Type} (e : Except LeakageError β) : Queried β := ExceptT.mk (.ok e)

end Queried

namespace Trace

/-- The samples of all outputs of a query, side by side; discrete if all of them are. -/
def queriedOutput (t : Trace α) (outputs : List String) : Queried (Samples α) := do
  let columns ← outputs.mapM fun selector => Queried.lookup selector (t.samples selector)
  match Matrix.besideAll? (columns.map (·.1)) with
  | some values => return ⟨values, columns.all (·.2)⟩
  | none => throw (.invalidParams .unevenOutputs)

/-- A secret of a query. -/
def queriedSecret (t : Trace α) (selector : String) : Queried (QueriedSecret α) :=
  Queried.lookup selector do
    let s ← Lookup.optional (Selector.parse? selector)
    let position ← Lookup.optional (t.position? s.name)
    let (values, isDiscrete) ← t.samples selector
    let info ← Lookup.required t.traced[position]?
    return ⟨selector, position, s.index.getD 0, ⟨values, isDiscrete⟩, info.isReachable⟩

/-- Whether a secret comes before another one: by position, then by element. -/
def isBefore (a b : QueriedSecret α) : Bool :=
  a.position < b.position || (a.position == b.position && a.element ≤ b.element)

/-- Min-entropy leakage about a secret. -/
def minEntropyScore (secret output : Samples α) (units : Units) : α :=
  (Vulnerability.ofSamples secret.ids output.ids).minEntropyLeakage units

/-- The entry of a secret. Secrets that no output depends on leak nothing, and are not estimated. -/
def reportEntry (query : LeakageQuery) (output : Samples α) (secret : QueriedSecret α) :
    Except LeakageError (ReportEntry α) := do
  let p := query.params
  checkSizes secret.samples.size output.size p
  match query.measure with
  | .mutualInformation =>
    if secret.isReachable then
      let (score, estimator) := estimate secret.samples output p
      return ⟨secret.selector, score, estimator⟩
    else
      return ⟨secret.selector, 0,
        p.estimator.resolve secret.samples.isDiscrete output.isDiscrete⟩
  | .minEntropy =>
    return ⟨secret.selector, minEntropyScore secret.samples output p.units, .discrete⟩

/-- Answers a query. -/
def leakage (t : Trace α) (query : LeakageQuery) : Queried (LeakageReport α) := do
  if query.secrets.isEmpty || query.outputs.isEmpty then throw .emptyQuery
  Queried.ofExcept query.params.validate
  let output ← t.queriedOutput query.outputs
  let secrets ← query.secrets.mapM t.queriedSecret
  let entries ← Queried.ofExcept
    ((secrets.mergeSort isBefore).mapM (reportEntry query output))
  return ⟨entries, query.outputs, output.size, query.params, query.measure⟩

end Trace

end InfoFlow
