import InfoFlow.Proofs.Leakage.DataProcessing
import InfoFlow.Proofs.Leakage.Highest

namespace InfoFlow

namespace Trace

variable {α : Type} {t : Trace α}

/-- Where a selector stands in a trace: the position of its variable, and the element, or 0 if it is the
whole variable. -/
def place? (t : Trace α) (selector : String) : Option (Nat × Nat) := do
  let s ← Selector.parse? selector
  let position ← t.position? s.name
  return (position, s.index.getD 0)

/-- Some output may depend on the variable of a selector. -/
def IsReachable (t : Trace α) (selector : String) : Prop :=
  ∃ s info, Selector.parse? selector = some s ∧ t.info? s.name = some info ∧ info.isReachable = true

/-- The samples of some outputs side by side: they are discrete if those of all outputs are. -/
def IsJoined (t : Trace α) (outputs : List String) (joined : Samples α) : Prop :=
  ∃ columns : List (Matrix α × Bool),
    outputs.Forall₂ (fun selector column => t.samples selector = pure column) columns ∧
    Matrix.besideAll? (columns.map (·.1)) = some joined.values ∧
    (∀ i : Nat, joined.values.toLists[i]? =
      (columns.mapM fun column => column.1.toLists[i]?).map List.flatten) ∧
    joined.isDiscrete = columns.all (·.2)

variable [Scalar α]

/-- A report answers a query about a trace. -/
structure Answers (t : Trace α) (query : LeakageQuery) (r : LeakageReport α) : Prop where
  secrets_perm : (r.entries.map ReportEntry.secret).Perm query.secrets
  /-- The entries stand in the order of their places. -/
  sorted : ∃ places : List (Nat × Nat),
    r.entries.map (fun entry => t.place? entry.secret) = places.map some ∧
    places.Pairwise (Prod.Lex (· < ·) (· ≤ ·))
  /-- Secrets with the same place keep the order in which they are asked about. -/
  stable (place : Nat × Nat) :
    (r.entries.map ReportEntry.secret).filter (t.place? · = some place) =
      query.secrets.filter (t.place? · = some place)
  /-- About a secret alone, the answer is its entry. -/
  alone {entry : ReportEntry α} : entry ∈ r.entries →
    t.leakage { query with secrets := [entry.secret] } = pure { r with entries := [entry] }
  /-- Mutual information is that of the samples of a secret and the outputs side by side. -/
  score_eq {entry : ReportEntry α} : query.measure = .mutualInformation → entry ∈ r.entries →
    t.IsReachable entry.secret → ∃ secret output,
      t.samples entry.secret = pure (secret.values, secret.isDiscrete) ∧
      t.IsJoined query.outputs output ∧
      mutualInformation secret output query.params = .ok entry.score
  /-- The entry that leaks the most is the first of those that share the highest score. -/
  highest : ∃ entry, IsFirstHighest ReportEntry.score r.entries entry ∧
    r.highest? = some (entry.secret, entry.score)

section Order

omit [Scalar α]

end Order

section Places

omit [Scalar α]

end Places

section Sorting

omit [Scalar α]

variable {selectors : List String} {secrets : List (QueriedSecret α)}

end Sorting

section Entries

variable {query : LeakageQuery} {output : Samples α} {selectors : List String}
  {secrets : List (QueriedSecret α)} {entries : List (ReportEntry α)}

end Entries

variable [LawfulOrder α] [LawfulUnits α]

section ShownCoin

end ShownCoin

end Trace

end InfoFlow
