import InfoFlow.Inference.Diagnostics
import InfoFlow.Model.Likelihood
import InfoFlow.Random.Normal

/-!
Markov chains over the states of a model.

A sweep visits each element of each node once, in node order, with the node's step. The chain keeps
the log prior of every element, the outputs and the log-likelihood at its state; a move recomputes
only the terms that depend on the moved element: its own log prior, those of the children of its node,
and the likelihood.
-/

namespace InfoFlow

/-- Iterations between two adaptations of the step scales. -/
def tuneInterval : Nat := 100

/-- Warnings kept per chain; further divergences are only counted. -/
def maxWarnings : Nat := 10

/-- Moves accepted and moves proposed. -/
structure MoveCount where
  accepted : Nat
  proposed : Nat
  deriving Repr, DecidableEq

namespace MoveCount

def zero : MoveCount := ⟨0, 0⟩

def add (m : MoveCount) (isAccepted : Bool) : MoveCount :=
  ⟨if isAccepted then m.accepted + 1 else m.accepted, m.proposed + 1⟩

/-- Accepted moves over proposed ones; 0 without any. -/
def rate {α : Type} [Scalar α] (m : MoveCount) : α :=
  if m.proposed = 0 then 0 else Scalar.ofNat m.accepted / Scalar.ofNat m.proposed

end MoveCount

/-- State of a chain, with the terms that are cached for it. -/
structure Chain (α : Type) where
  id : Nat
  iteration : Nat
  state : State α
  /-- Log prior density of each element. -/
  lnPrior : Array (List α)
  outputs : List (List α)
  lnLikelihood : α
  /-- Step scale of each node. -/
  scales : Array α
  /-- Moves of each node since the last adaptation. -/
  window : Array MoveCount
  /-- Moves after tuning. -/
  moves : MoveCount
  divergences : Nat
  warnings : List Warning

/-- The terms that a move changes, at the state it moves to. -/
structure Terms (α : Type) where
  own : α
  children : List (List α)
  /-- New outputs, if the moved node is an argument of the transformation. -/
  outputs : Option (List (List α))
  lnLikelihood : α

variable {α σ : Type} [Scalar α] [RandomWords σ]

def Terms.total (t : Terms α) : α := t.own + Scalar.sum t.children.flatten + t.lnLikelihood

namespace Chain

/-- The log prior densities of all elements at a state. -/
def allLnPrior (m : Model α) (state : State α) : Array (List α) :=
  (state.toList.zipIdx.map fun (values, i) => m.lnPriorElements i values.size state).toArray

/-- The chain that starts at a state, if the log density is finite there. -/
def start? (m : Model α) (id : Nat) (state : State α) : Option (Chain α) := do
  let outputs ← (m.evaluate state).toOption
  let lnPrior := allLnPrior m state
  let lnLikelihood := m.lnLikelihood state outputs
  let n := state.size
  if Scalar.isFinite lnLikelihood && lnPrior.toList.all (·.all Scalar.isFinite) then
    some {
      id := id
      iteration := 0
      state := state
      lnPrior := lnPrior
      outputs := outputs
      lnLikelihood := lnLikelihood
      scales := Array.replicate n 1
      window := Array.replicate n .zero
      moves := .zero
      divergences := 0
      warnings := []
    }
  else none

/-- Starts a chain at the first prior draw with a finite log density; `none` if none of the draws has
one. -/
def init (m : Model α) (id : Nat) : Nat → Drawing σ (Option (Chain α))
  | 0 => return none
  | attempts + 1 => do
    match ← Drawing.lift m.samplePrior with
    | .error (.breakdown b) => throw b
    | .error (.error _) => init m id attempts
    | .ok state =>
      match start? m id state with
      | some chain => return some chain
      | none => init m id attempts

/-- Counts a divergence at node `i`, and keeps a warning unless there are enough. -/
def diverge (m : Model α) (c : Chain α) (i : Nat) (reason : String) : Chain α :=
  let name := (m.nodes[i]?.map Node.name).getD ""
  { c with
    divergences := c.divergences + 1
    warnings :=
      if c.warnings.length < maxWarnings then c.warnings ++ [⟨c.id, c.iteration, name, reason⟩]
      else c.warnings }

/-- The children of node `i`. -/
def children (m : Model α) (i : Nat) : List Nat := (m.nodes[i]?.map Node.children).getD []

/-- The log density that depends on element `e` of node `i`, from the cached terms. -/
def localTotal (m : Model α) (c : Chain α) (i e : Nat) : α :=
  let children := (children m i).map fun child => Scalar.sum (c.lnPrior.getD child [])
  (c.lnPrior.getD i []).getD e 0 + Scalar.sum children + c.lnLikelihood

/-- The terms that depend on element `e` of node `i`, at another state. Where the element is
impossible, no other term is looked at. -/
def localTerms (m : Model α) (c : Chain α) (i e : Nat) (state : State α) :
    Except EvaluationError (Terms α) := do
  let own := m.lnPriorElement i e state
  if own == -Scalar.infinity then return ⟨own, [], none, c.lnLikelihood⟩
  let children := (children m i).map fun child =>
    m.lnPriorElements child (state.getD child #[]).size state
  let outputs ← if m.arguments.contains i then some <$> m.evaluate state else pure none
  let isObserved := (m.nodes[i]?.map Node.isObserved).getD false
  let lnLikelihood :=
    if outputs.isSome || isObserved then m.lnLikelihood state (outputs.getD c.outputs)
    else c.lnLikelihood
  return ⟨own, children, outputs, lnLikelihood⟩

/-- Why the terms at a state cannot be weighed. -/
def divergence? (terms : Except EvaluationError (Terms α)) : Option String :=
  match terms with
  | .error e => some e.message
  | .ok t =>
    if Scalar.isNaN t.total || t.total == Scalar.infinity then
      some ("log density evaluates to " ++ Scalar.text t.total)
    else none

/-- Moves element `e` of node `i`: the chain at the new state, with the terms computed for it. -/
def commit (m : Model α) (c : Chain α) (i e : Nat) (state : State α) (terms : Terms α) : Chain α :=
  let own := c.lnPrior.modify i (·.set e terms.own)
  { c with
    state := state
    lnPrior := ((children m i).zip terms.children).foldl
      (fun lnPrior (child, values) => lnPrior.setIfInBounds child values) own
    outputs := terms.outputs.getD c.outputs
    lnLikelihood := terms.lnLikelihood }

/-- Whether a move is accepted: always if it does not lower the log density, else if the logarithm of
a uniform draw is below the difference. -/
def accepts (difference : α) : Random σ Bool := do
  if 0 ≤ difference then return true
  else return Scalar.log (← Random.unit) < difference

/-- Proposes a value for element `e` of node `i`. -/
def metropolis (m : Model α) (c : Chain α) (i e : Nat) (value : α) :
    Random σ (Bool × Chain α) := do
  let state := c.state.update i e value
  let terms := c.localTerms m i e state
  match divergence? terms, terms with
  | none, .ok terms =>
    if ← accepts (terms.total - c.localTotal m i e) then
      return (true, c.commit m i e state terms)
    else return (false, c)
  | some reason, _ => return (false, c.diverge m i reason)
  | none, .error _ => return (false, c)

/-- The first position whose weight exceeds what is left of `u` after the weights before it. -/
def pick? (u : α) : List α → Option Nat
  | [] => none
  | w :: ws => if u < w then some 0 else (pick? (u - w) ws).map (· + 1)

/-- The position of the last positive weight; 0 if there is none. -/
def lastPositive (ws : List α) : Nat :=
  ((ws.zipIdx.filter fun weight => 0 < weight.1).getLast?.map (·.2)).getD 0

/-- The log weight of a category: negative infinity where it cannot be weighed. -/
def categoryWeight (terms : Except EvaluationError (Terms α)) : α :=
  match divergence? terms, terms with
  | none, .ok terms => terms.total
  | _, _ => -Scalar.infinity

/-- A move as it is weighed: the state it goes to, and its terms there. -/
abbrev Candidate (α : Type) := State α × Except EvaluationError (Terms α)

/-- Moves to a candidate that was drawn, if it can be weighed. -/
def commitCategory (m : Model α) (c : Chain α) (i e : Nat) (candidate : Option (Candidate α)) :
    Bool × Chain α :=
  match candidate with
  | some (state, .ok terms) =>
    if (divergence? (.ok terms)).isSome then (false, c) else (true, c.commit m i e state terms)
  | _ => (false, c)

/-- The moves of element `e` of node `i` to each of some categories. -/
def candidates (m : Model α) (c : Chain α) (i e categories : Nat) : List (Candidate α) :=
  (List.range categories).map fun k =>
    let state := c.state.update i e (Scalar.ofNat k)
    (state, c.localTerms m i e state)

/-- Counts the candidates that cannot be weighed as divergences at node `i`. -/
def countDivergences (m : Model α) (c : Chain α) (i : Nat) (candidates : List (Candidate α)) :
    Chain α :=
  candidates.foldl (fun c (_, terms) =>
    match divergence? terms with
    | some reason => c.diverge m i reason
    | none => c) c

/-- The position drawn in proportion to weights that are given by their logarithms; `u` is uniform. -/
def drawPosition (lnWeights : List α) (largest u : α) : Nat :=
  let weights := lnWeights.map fun w => Scalar.exp (w - largest)
  (pick? (u * Scalar.sum weights) weights).getD (lastPositive weights)

/-- Draws element `e` of node `i` from its conditional distribution over `categories` categories. -/
def drawCategory (m : Model α) (c : Chain α) (i e categories : Nat) :
    Random σ (Bool × Chain α) := do
  let candidates := c.candidates m i e categories
  let c := c.countDivergences m i candidates
  let lnWeights := candidates.map fun candidate => categoryWeight candidate.2
  let largest := lnWeights.foldl Scalar.max (-Scalar.infinity)
  if largest == -Scalar.infinity then return (false, c)
  let u ← Random.unit
  return c.commitCategory m i e candidates[drawPosition lnWeights largest u]?

/-- Draws element `e` of a categorical node `i` from its conditional distribution. -/
def gibbs (m : Model α) (c : Chain α) (i e : Nat) : Random σ (Bool × Chain α) := do
  match m.resolve i e c.state with
  | .ok (.categorical weights) => c.drawCategory m i e weights.size
  | _ => return (false, c)

/-- A whole number that is not 0: a normal draw of some scale, rounded, or else a step up or down by
the toss of a coin. -/
def wholeStep (scale : α) : Random σ α := do
  let step := Scalar.round (scale * (← Random.normal))
  if step == 0 then return if ← Random.coin then 1 else -1
  else return step

/-- One move of element `e` of node `i`; `none` if its node is never moved. -/
def move (m : Model α) (c : Chain α) (i e : Nat) (step : Step) :
    Random σ (Option (Bool × Chain α)) := do
  let old := c.state.value i e
  let scale := c.scales.getD i 1
  match step with
  | .fixed => return none
  | .category => some <$> c.gibbs m i e
  | .flip => some <$> c.metropolis m i e (1 - old)
  | .wholeWalk => some <$> c.metropolis m i e (old + (← wholeStep scale))
  | .walk => some <$> c.metropolis m i e (old + scale * (← Random.normal))

/-- Counts a move of node `i`; only moves after tuning count for the acceptance rate. -/
def count (c : Chain α) (i : Nat) (isTuning isAccepted : Bool) : Chain α :=
  { c with
    window := c.window.modify i (·.add isAccepted)
    moves := if isTuning then c.moves else c.moves.add isAccepted }

/-- Updates one element. -/
def visit (m : Model α) (isTuning : Bool) (c : Chain α) (i e : Nat) (step : Step) :
    Random σ (Chain α) := do
  match ← c.move m i e step with
  | none => return c
  | some (isAccepted, c) => return c.count i isTuning isAccepted

/-- All elements of a model, in the order of a sweep. -/
def sites (m : Model α) : List (Nat × Nat × Step) :=
  m.nodes.toList.zipIdx.flatMap fun (node, i) =>
    (List.range node.width).map fun e => (i, e, node.step)

/-- Updates every element of every node once. -/
def sweep (m : Model α) (isTuning : Bool) (c : Chain α) : Random σ (Chain α) :=
  (sites m).foldlM (fun c (i, e, step) => c.visit m isTuning i e step)
    { c with iteration := c.iteration + 1 }

/-- What a step scale is multiplied by: less than 1 when few proposals are accepted, more when many
are. -/
def scaleFactor (acceptance : α) : α :=
  if acceptance < 0.001 then 0.1
  else if acceptance < 0.05 then 0.5
  else if acceptance < 0.2 then 0.9
  else if 0.95 < acceptance then 10
  else if 0.75 < acceptance then 2
  else if 0.5 < acceptance then 1.1
  else 1

def minScale : α := 1e-8

def maxScale : α := 1e8

/-- The step scale after an adaptation. -/
def tuned (scale acceptance : α) : α :=
  Scalar.min (Scalar.max (scale * scaleFactor acceptance) minScale) maxScale

/-- Adapts the step scales to the moves since the last adaptation. -/
def tune (c : Chain α) : Chain α :=
  { c with
    scales := Array.zipWith
      (fun scale (w : MoveCount) => if w.proposed = 0 then scale else tuned scale w.rate)
      c.scales c.window
    window := c.window.map fun _ => .zero }

end Chain

end InfoFlow
