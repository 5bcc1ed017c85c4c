import InfoFlow.Belief.Coverage
import InfoFlow.Belief.Draw

namespace InfoFlow

/-- A belief: the variables it declares, and the coverage of the least covered one. -/
structure Candidate (α : Type) where
  declared : List (Variable α)
  coverage : Nat

/-- Why a belief is not generated. -/
inductive BeliefError where
  | invalidParameter (e : InvalidParameter)
  | insufficientCoverage (e : InsufficientCoverage)
  deriving Repr, DecidableEq

/-- Generates beliefs about one variable. -/
structure ScalarGenerator (α : Type) where
  name : String
  /-- Whether the values are integers. -/
  isDiscrete : Bool
  families : List Family
  range : ValueRange α
  policy : CoveragePolicy α
  /-- Continuous bins hold equal mass under it. -/
  reference : Option (Distribution α)
  seed : UInt64

namespace ScalarGenerator

variable {α σ : Type} [Scalar α] [RandomWords σ]

/-- Families of integers, in the order in which they are drawn from. -/
def integerFamilies : List Family :=
  [.binomial, .bernoulli, .geometric, .betaBinomial, .poisson, .discreteUniform]

/-- Families of real numbers, in the order in which they are drawn from. -/
def realFamilies : List Family :=
  [.normal, .uniform, .truncatedNormal, .beta, .exponential, .laplace, .studentT, .cauchy, .gamma]

/-- Points or bins of the range that a distribution covers. -/
def coverage (g : ScalarGenerator α) (d : Distribution α) : Nat :=
  InfoFlow.coverage d g.range g.reference g.policy

/-- The most that a distribution of a family could cover. -/
def maxCoverage (g : ScalarGenerator α) (f : Family) : Nat :=
  InfoFlow.maxCoverage f g.range g.reference g.policy

/-- Whether a coverage is enough. -/
def isAdequate (g : ScalarGenerator α) (covered : Nat) : Bool := g.policy.minimum.toNat ≤ covered

/-- Families with distributions that could cover enough. -/
def reachableFamilies (g : ScalarGenerator α) : List Family :=
  g.families.filter fun f => g.isAdequate (g.maxCoverage f)

/-- The error of a coverage that is not enough. -/
def insufficient (g : ScalarGenerator α) (covered : Nat) : InsufficientCoverage :=
  ⟨g.name, covered, g.policy.minimum.toNat⟩

/-- The generator itself, if some family could cover enough. -/
def checkReachable (g : ScalarGenerator α) : Except BeliefError (ScalarGenerator α) :=
  let best := (g.families.map g.maxCoverage).foldl Nat.max 0
  if g.isAdequate best then .ok g else .error (.insufficientCoverage (g.insufficient best))

/-- A generator of integers. The range must not be below 0 nor hold too many integers; a Bernoulli is
drawn only for ranges up to 1. -/
def int (name : String) (range : ValueRange α) (policy : CoveragePolicy α) :
    Except BeliefError (ScalarGenerator α) := do
  let fault (reason : String) : BeliefError :=
    .invalidParameter ⟨name, "IntGenerator", "ranges", reason⟩
  if range.lower < 0 then throw (fault "integer ranges must start at 0 or above")
  match range.checkIntegerCount policy with
  | .error e => throw (fault e.reason)
  | .ok _ =>
    let families := integerFamilies.filter fun f => f != .bernoulli || range.upper ≤ 1
    checkReachable ⟨name, true, families, range, policy, none, 0⟩

/-- A generator of real numbers. -/
def float (name : String) (range : ValueRange α) (policy : CoveragePolicy α) :
    Except BeliefError (ScalarGenerator α) :=
  checkReachable ⟨name, false, realFamilies, range, policy, none, 0⟩

/-- Restricts the families. -/
def withFamilies (g : ScalarGenerator α) (families : List Family) :
    Except BeliefError (ScalarGenerator α) :=
  let supported := if g.isDiscrete then integerFamilies else realFamilies
  match families.find? fun f => !supported.contains f with
  | some f =>
    let kind := if g.isDiscrete then "integer" else "float"
    .error (.invalidParameter ⟨g.name, f.name, "kinds", s!"not supported by {kind} generators"⟩)
  | none => checkReachable { g with families }

/-- Measures coverage with bins of equal mass under a rough belief about the variable. -/
def withReference (g : ScalarGenerator α) (reference : Distribution α) :
    Except BeliefError (ScalarGenerator α) :=
  if g.isDiscrete || reference.isDiscrete then
    .error (.invalidParameter ⟨g.name, reference.family.name, "reference",
      "references are continuous, for float generators"⟩)
  else checkReachable { g with reference := some reference }

def withSeed (g : ScalarGenerator α) (seed : UInt64) : ScalarGenerator α := { g with seed }

/-- Draws distributions of picked families until one covers enough, `attempts` times at most; `best`
is the best coverage so far. Nothing more is drawn once no family is picked. -/
def drawFrom (g : ScalarGenerator α) (pick : Random σ (Option Family)) :
    Nat → Nat → Random σ (Except InsufficientCoverage (Distribution α × Nat))
  | 0, best => return .error (g.insufficient best)
  | attempts + 1, best => do
    match ← pick with
    | none => return .error (g.insufficient best)
    | some f =>
      match ← Belief.drawDistribution f g.range with
      | none => drawFrom g pick attempts best
      | some d =>
        let covered := g.coverage d
        if g.isAdequate covered then return .ok (d, covered)
        else drawFrom g pick attempts (Nat.max best covered)

/-- Draws an adequate distribution of any of the families. -/
def draw (g : ScalarGenerator α) :
    Random σ (Except InsufficientCoverage (Distribution α × Nat)) :=
  g.drawFrom (Random.choose g.families) g.policy.maxAttempts.toNat 0

/-- Draws an adequate distribution of one family. -/
def drawFamily (g : ScalarGenerator α) (f : Family) :
    Random σ (Except InsufficientCoverage (Distribution α × Nat)) :=
  g.drawFrom (return some f) g.policy.maxAttempts.toNat 0

/-- Draws a distribution and declares a variable with it. -/
def drawVariable (g : ScalarGenerator α) (name : String) (elements : Nat) :
    Random σ (Except BeliefError (Variable α × Nat)) := do
  match ← g.draw with
  | .error e => return .error (.insufficientCoverage e)
  | .ok (d, covered) =>
    match Variable.ofDistribution name d elements with
    | .error e => return .error (.invalidParameter e)
    | .ok v => return .ok (v, covered)

/-- Draws a belief about the variable. -/
def drawCandidate (g : ScalarGenerator α) : Random σ (Except BeliefError (Candidate α)) := do
  return (← g.drawVariable g.name 1).map fun (v, covered) => ⟨[v], covered⟩

end ScalarGenerator

/-- The length of generated lists. -/
inductive ListLength where
  | fixed (n : Nat)
  /-- Any length between two bounds, both included. -/
  | between (least most : Nat)
  deriving Repr, DecidableEq

/-- How the elements of a list are distributed. -/
inductive ListLayout where
  /-- One variable with independent elements. -/
  | shared
  /-- A variable per element, each with a number after its name. -/
  | perElement
  deriving Repr, DecidableEq

/-- Generates beliefs about lists. -/
structure ListGenerator (α : Type) where
  element : ScalarGenerator α
  length : ListLength
  layout : ListLayout

namespace ListGenerator

variable {α σ : Type} [Scalar α] [RandomWords σ]

/-- Whether lists of a length are possible, none of them empty. -/
def isPossible : ListLength → Bool
  | .fixed n => 0 < n
  | .between least most => 0 < least && least ≤ most

/-- A generator of lists whose elements another generator draws. -/
def ofElements (element : ScalarGenerator α) (length : ListLength) (layout : ListLayout) :
    Except BeliefError (ListGenerator α) :=
  if isPossible length then .ok ⟨element, length, layout⟩
  else
    let kind := if element.isDiscrete then "IntList" else "FloatList"
    .error (.invalidParameter ⟨element.name, kind, "length",
      "lists need a positive length, with increasing bounds"⟩)

def withSeed (g : ListGenerator α) (seed : UInt64) : ListGenerator α :=
  { g with element := g.element.withSeed seed }

def drawLength : ListLength → Random σ Nat
  | .fixed n => return n
  | .between least most => return (← Random.integerBetween least most).toNat

/-- Draws a variable per element, and the least of their coverages. -/
def drawElements (g : ScalarGenerator α) :
    List Nat → Random σ (Except BeliefError (List (Variable α × Nat)))
  | [] => return .ok []
  | i :: rest => do
    match ← g.drawVariable s!"{g.name}{i}" 1 with
    | .error e => return .error e
    | .ok v =>
      match ← drawElements g rest with
      | .error e => return .error e
      | .ok vs => return .ok (v :: vs)

/-- The least of some coverages; the largest machine word without any. -/
def leastCoverage (coverages : List Nat) : Nat := coverages.foldl Nat.min (UInt64.size - 1)

/-- Draws a belief about the list. -/
def drawCandidate (g : ListGenerator α) : Random σ (Except BeliefError (Candidate α)) := do
  let n ← drawLength g.length
  match g.layout with
  | .shared =>
    return (← g.element.drawVariable g.element.name n).map fun (v, covered) => ⟨[v], covered⟩
  | .perElement =>
    return (← drawElements g.element (List.range n)).map fun vs =>
      ⟨vs.map (·.1), leastCoverage (vs.map (·.2))⟩

end ListGenerator

/-- A generator of either kind. -/
inductive Generator (α : Type) where
  | scalar (g : ScalarGenerator α)
  | list (g : ListGenerator α)

namespace Generator

variable {α σ : Type} [Scalar α] [RandomWords σ]

def seed : Generator α → UInt64
  | scalar g => g.seed
  | list g => g.element.seed

def drawCandidate : Generator α → Random σ (Except BeliefError (Candidate α))
  | scalar g => g.drawCandidate
  | list g => g.drawCandidate

/-- The next items of the sequence of candidates, `n` at most. The sequence ends after an error. -/
def candidatesFrom (g : Generator α) : Nat → Random σ (List (Except BeliefError (Candidate α)))
  | 0 => return []
  | n + 1 => do
    match ← g.drawCandidate with
    | .error e => return [.error e]
    | .ok c => return .ok c :: (← candidatesFrom g n)

/-- The first items of the sequence of candidates, `n` at most. The seed of a generator determines
the sequence. -/
def candidates (g : Generator α) (n : Nat) : List (Except BeliefError (Candidate α)) :=
  ((g.candidatesFrom n).run (Xoshiro.ofSeed g.seed)).1

end Generator

end InfoFlow
