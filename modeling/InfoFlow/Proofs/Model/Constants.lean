import InfoFlow.Model.Prior
import InfoFlow.Proofs.Distribution.PointMass

namespace InfoFlow.Model

variable {α σ : Type} [Scalar α] [RandomWords σ] {node : Node α} {s : State α} {x : α}

/-- The elements of a constant are drawn as its value, which takes nothing from the stream. -/
theorem drawElements_constant {elements : List Nat}
    (h : ∀ e ∈ elements, resolveNode node e s = .ok (.constant x)) :
    (drawElements node s elements : Random σ _) =
      pure (.ok (List.replicate elements.length x)) := by
  induction elements with
  | nil => rfl
  | cons e rest ih =>
    obtain ⟨he, hrest⟩ := List.forall_mem_cons.mp h
    have hsampler : elementSampler node e s = .ok (.constant x) := by
      unfold elementSampler
      rw [he]
      rfl
    unfold drawElements
    rw [hsampler, ih hrest]
    rfl

theorem drawNodes_constant_cons (h : node.literal = some (.constant x)) (rest : List (Node α)) :
    (drawNodes s (node :: rest) : Random σ _) =
      drawNodes (s.push (Array.replicate node.width x)) rest := by
  have hresolve (e : Nat) : resolveNode node e s = .ok (.constant x) := by
    unfold resolveNode
    rw [h]
  rw [drawNodes, drawElements_constant fun e _ => hresolve e, List.length_range]
  simp only [pure_bind, List.toArray_replicate]

end InfoFlow.Model
