import InfoFlow.Scalar.Basic

namespace InfoFlow

/-- How often each symbol of a list occurs, in order of first appearance. -/
def occurrences {β : Type} [BEq β] (xs : List β) : List Nat :=
  xs.eraseDups.map fun x => xs.count x

variable {α : Type} [Scalar α]

/-- What an event of probability `p` adds to an entropy. -/
def entropyTerm (p : α) : α := -p * Scalar.log p

/-- Empirical entropy of a list of symbols, in nats; 0 of the empty list. -/
def entropy {β : Type} [BEq β] (xs : List β) : α :=
  if xs.isEmpty then 0
  else
    let n : α := Scalar.ofNat xs.length
    Scalar.sum ((occurrences xs).map fun count => entropyTerm (Scalar.ofNat count / n))

/-- Plug-in estimate of the mutual information of two aligned lists of symbols, in nats. -/
def plugIn {β γ : Type} [BEq β] [BEq γ] (xs : List β) (ys : List γ) : α :=
  entropy xs + entropy ys - entropy (xs.zip ys)

end InfoFlow
