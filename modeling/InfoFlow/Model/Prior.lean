import InfoFlow.Model.Basic

namespace InfoFlow

namespace Binding

variable {α : Type} [Scalar α]

/-- The value of a parameter for one element. A parent of one element serves all of them. -/
def resolve (state : State α) (element : Nat) : Binding α → α
  | value x => x
  | weights _ => 0
  | node j =>
    let parent := state.getD j #[]
    if parent.size = 1 then parent.getD 0 0 else parent.getD element 0

def weights? : Binding α → Option (List α)
  | weights ws => some ws
  | _ => none

end Binding

namespace Model

variable {α σ : Type} [Scalar α] [RandomWords σ]

/-- The distribution of an element of a node, given the values of its parents. -/
def resolveNode (node : Node α) (element : Nat) (state : State α) :
    Except InvalidParameter (Distribution α) :=
  match node.literal with
  | some d => .ok d
  | none =>
    let values := node.bindings.map (Binding.resolve state element)
    let weights := node.bindings.reverse.findSome? Binding.weights?
    (Distribution.build node.family values weights).mapError (·.of node.name node.family)

/-- The distribution of element `element` of node `i`, given the values of its parents. -/
def resolve (m : Model α) (i element : Nat) (state : State α) :
    Except InvalidParameter (Distribution α) :=
  match m.nodes[i]? with
  | some node => resolveNode node element state
  | none => .ok (.constant 0)

/-- Log prior density of one element; negative infinity where its distribution does not exist. -/
def lnPriorElement (m : Model α) (i element : Nat) (state : State α) : α :=
  match m.resolve i element state with
  | .ok d => d.lnDensity (state.value i element)
  | .error _ => -Scalar.infinity

/-- Log prior densities of all elements of a node. -/
def lnPriorElements (m : Model α) (i width : Nat) (state : State α) : List α :=
  (List.range width).map fun e => m.lnPriorElement i e state

/-- Log prior density of a node. -/
def lnPriorNode (m : Model α) (i : Nat) (state : State α) : α :=
  Scalar.sum (m.lnPriorElements i ((m.nodes[i]?.map Node.width).getD 0) state)

/-- The sampler of an element of a node whose parents have been drawn. -/
def elementSampler (node : Node α) (element : Nat) (state : State α) :
    Except (Failure InvalidParameter) (Sampler α) := do
  let d ← (resolveNode node element state).mapError .error
  (Sampler.ofDistribution d).mapError (.map (·.of node.name node.family))

/-- Draws elements of a node one after the other. -/
def drawElements (node : Node α) (state : State α) :
    List Nat → Random σ (Except (Failure InvalidParameter) (List α))
  | [] => return .ok []
  | e :: rest => do
    match elementSampler node e state with
    | .error failure => return .error failure
    | .ok sampler =>
      match ← sampler.draw.run with
      | .error b => return .error (.breakdown b)
      | .ok x =>
        match ← drawElements node state rest with
        | .error failure => return .error failure
        | .ok xs => return .ok (x :: xs)

/-- Draws nodes one after the other, each given the ones before it. -/
def drawNodes (state : State α) :
    List (Node α) → Random σ (Except (Failure InvalidParameter) (State α))
  | [] => return .ok state
  | node :: rest => do
    match ← drawElements node state (List.range node.width) with
    | .error failure => return .error failure
    | .ok values => drawNodes (state.push values.toArray) rest

/-- An ancestral draw of all nodes. A draw that fails keeps the words it has taken. -/
def samplePrior (m : Model α) : Random σ (Except (Failure InvalidParameter) (State α)) :=
  drawNodes #[] m.nodes.toList

end Model

end InfoFlow
