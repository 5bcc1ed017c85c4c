import InfoFlow.Program.Basic

namespace InfoFlow

/-- What a parameter of a node is bound to. -/
inductive Binding (α : Type) where
  | value (x : α)
  | weights (ws : List α)
  | node (i : Nat)
  deriving Repr, DecidableEq

/-- How a chain updates the elements of a node. -/
inductive Step where
  /-- Never: the node is constant. -/
  | fixed
  /-- Proposes the other of two values. -/
  | flip
  /-- Draws from the conditional distribution over all categories. -/
  | category
  /-- Proposes a whole step up or down. -/
  | wholeWalk
  /-- Proposes a normal step. -/
  | walk
  deriving Repr, DecidableEq

def Step.ofFamily (f : Family) : Step :=
  match f with
  | .constant => fixed
  | .bernoulli => flip
  | .categorical => category
  | f => if f.isDiscrete then wholeWalk else walk

/-- A stochastic node. -/
structure Node (α : Type) where
  name : String
  family : Family
  role : Role
  width : Nat
  /-- Declared as a number, not as a vector. -/
  isScalar : Bool
  isHyper : Bool
  /-- Position among the declared inputs. -/
  declared : Nat
  /-- Bindings of the parameters, in signature order. -/
  bindings : List (Binding α)
  step : Step
  /-- Nodes with a parameter bound to this one, in increasing order. -/
  children : List Nat
  /-- Some observation constrains the node itself. -/
  isObserved : Bool
  /-- The distribution, when no parameter is bound to a node. -/
  literal : Option (Distribution α)

namespace Node

variable {α : Type}

def isDiscrete (n : Node α) : Bool := n.family.isDiscrete

end Node

/-- Where an observation applies: a node or an output, and one element of it or all. -/
inductive Site where
  | node (i : Nat) (element : Option Nat)
  | output (o : Nat) (element : Option Nat)
  deriving Repr, DecidableEq

/-- An observation of a site. -/
structure SiteObservation (α : Type) where
  site : Site
  constraints : List (Relation × α)
  precision : α
  isDiscrete : Bool

/-- A compiled program. The nodes stand in an order in which parents come first; observations
constrain nodes and outputs. -/
structure Model (α : Type) where
  name : String
  nodes : Array (Node α)
  outputs : List Output
  transformation : Transformation α
  /-- Nodes passed to the transformation, in declaration order. -/
  arguments : List Nat
  observations : List (SiteObservation α)
  /-- The node of each declared input. -/
  declaration : List Nat

/-- Values of all nodes, by node and element. -/
abbrev State (α : Type) := Array (Array α)

namespace State

variable {α : Type} [Scalar α]

/-- The value of an element. -/
def value (s : State α) (i e : Nat) : α := (s.getD i #[]).getD e 0

/-- The state with another value for one element. -/
def update (s : State α) (i e : Nat) (x : α) : State α := s.modify i (·.setIfInBounds e x)

end State

namespace Model

variable {α : Type}

/-- Whether sampling has a posterior to aim at. -/
def isConditioned (m : Model α) : Bool := !m.observations.isEmpty

/-- For each node, whether the transformation's arguments can depend on it: it is an argument, or has
a child that is reachable. Children come after their parents, so one pass from the end decides. -/
def reachable (m : Model α) : Array Bool :=
  m.nodes.toList.zipIdx.foldr
    (fun (node, i) reached => reached.setIfInBounds i
      (!node.isHyper || node.children.any fun c => reached.getD c false))
    (Array.replicate m.nodes.size false)

/-- Secrets on which no output can depend, in node order. -/
def unreachableSecrets (m : Model α) : List String :=
  let reached := m.reachable
  (m.nodes.toList.zipIdx.filter fun (node, i) =>
    node.role == .secret && !reached.getD i false).map (·.1.name)

end Model

end InfoFlow
