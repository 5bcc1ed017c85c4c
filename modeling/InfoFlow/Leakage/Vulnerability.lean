import InfoFlow.Information.Estimator

namespace InfoFlow

variable {α : Type} [Scalar α]

namespace Guessing

/-- Factor by which the output raises the chance of guessing. The risk is the error of the best
guess given the output, and `guessing` that of the best guess without it. -/
def multiplicativeLeakage (risk guessing : α) : α := (1 - risk) / (1 - guessing)

/-- How much the output raises the chance of guessing. -/
def additiveLeakage (risk guessing : α) : α := guessing - risk

/-- What the output leaves of the error of guessing; undefined if there was none. -/
def bayesSecurity? (risk guessing : α) : Option α :=
  if Scalar.isClose guessing 0 then none else some (risk / guessing)

/-- Logarithm of the factor by which the chance of guessing rises, in bits. -/
def minEntropyLeakage (risk guessing : α) : α :=
  -Scalar.log2 (1 - guessing) + Scalar.log2 (1 - risk)

end Guessing

/-- How often the most frequent symbol occurs. -/
def largestCount {β : Type} [BEq β] (xs : List β) : Nat :=
  (xs.eraseDups.map fun x => xs.count x).foldl Nat.max 0

/-- The frequency of the most frequent symbol; 0 if there is none. -/
def maxPrior {β : Type} [BEq β] (xs : List β) : α :=
  if xs.isEmpty then 0 else Scalar.ofNat (largestCount xs) / Scalar.ofNat xs.length

/-- Number of aligned samples whose secret is guessed right: for each output the most frequent secret
seen with it. -/
def correctGuesses {β γ : Type} [BEq β] [BEq γ] (secrets : List β) (outputs : List γ) : Nat :=
  let pairs := secrets.zip outputs
  (pairs.map (·.2)).eraseDups.foldr (fun y guesses =>
    largestCount ((pairs.filter fun (_, z) => z == y).map (·.1)) + guesses) 0

/-- Probability of guessing a secret without and with its output. -/
structure Vulnerability (α : Type) where
  prior : α
  posterior : α
  deriving Repr, DecidableEq

namespace Vulnerability

/-- Frequencies in aligned samples. -/
def ofSamples {β γ : Type} [BEq β] [BEq γ] (secrets : List β) (outputs : List γ) :
    Vulnerability α :=
  if secrets.isEmpty then ⟨0, 0⟩
  else ⟨maxPrior secrets, Scalar.ofNat (correctGuesses secrets outputs) /
    Scalar.ofNat secrets.length⟩

def bayesRisk (v : Vulnerability α) : α := 1 - v.posterior

def randomGuessing (v : Vulnerability α) : α := 1 - v.prior

def multiplicativeLeakage (v : Vulnerability α) : α :=
  Guessing.multiplicativeLeakage v.bayesRisk v.randomGuessing

def additiveLeakage (v : Vulnerability α) : α :=
  Guessing.additiveLeakage v.bayesRisk v.randomGuessing

def bayesSecurity? (v : Vulnerability α) : Option α :=
  Guessing.bayesSecurity? v.bayesRisk v.randomGuessing

/-- Min-entropy leakage, not below 0; 0 if the secret cannot be guessed at all. -/
def minEntropyLeakage (v : Vulnerability α) (units : Units) : α :=
  if v.prior ≤ 0 then 0
  else
    let bits := Guessing.minEntropyLeakage v.bayesRisk v.randomGuessing
    match units with
    | .bits => Scalar.max bits 0
    | .nats => Scalar.max (bits * Scalar.ln2) 0

end Vulnerability

end InfoFlow
