import InfoFlow.Model.Likelihood
import InfoFlow.Proofs.Model.State

namespace InfoFlow.Model

variable {α : Type} [Scalar α] {m : Model α} {s : State α} {i e : Nat} {x : α}

/-- The distribution of an element depends on the nodes that its own node is bound to. -/
theorem resolveNode_congr {node : Node α} {t : State α}
    (h : ∀ j, .node j ∈ node.bindings → s.getD j #[] = t.getD j #[]) (l : Nat) :
    resolveNode node l s = resolveNode node l t := by
  have hbindings : node.bindings.map (Binding.resolve s l) =
      node.bindings.map (Binding.resolve t l) := by
    refine List.map_congr_left fun binding hbinding => ?_
    cases binding with
    | value y => rfl
    | weights ws => rfl
    | node j => simp only [Binding.resolve, h j hbinding]
  unfold resolveNode
  rw [hbindings]

theorem resolveNode_update {node : Node α} (h : .node i ∉ node.bindings) (l : Nat) :
    resolveNode node l (s.update i e x) = resolveNode node l s := by
  refine resolveNode_congr (fun j hj => State.getD_update_of_ne ?_) l
  rintro rfl
  exact h hj

theorem lnPriorElement_update {k l : Nat} {node : Node α} (hk : m.nodes[k]? = some node)
    (h : .node i ∉ node.bindings) (hne : k ≠ i ∨ l ≠ e) :
    m.lnPriorElement k l (s.update i e x) = m.lnPriorElement k l s := by
  unfold lnPriorElement resolve
  simp only [hk]
  rw [resolveNode_update h, State.value_update_of_ne hne]

theorem lnPriorElements_update {k width : Nat} {node : Node α} (hk : m.nodes[k]? = some node)
    (h : .node i ∉ node.bindings) (hne : k ≠ i) :
    m.lnPriorElements k width (s.update i e x) = m.lnPriorElements k width s :=
  List.map_congr_left fun _ _ => lnPriorElement_update hk h (.inl hne)

theorem evaluate_update (h : i ∉ m.arguments) :
    m.evaluate (s.update i e x) = m.evaluate s := by
  have harguments : m.argumentValues (s.update i e x) = m.argumentValues s := by
    refine List.map_congr_left fun k hk => ?_
    have hne : k ≠ i := fun heq => h (heq ▸ hk)
    rw [State.value_update_of_ne (.inl hne), State.getD_update_of_ne hne]
  unfold evaluate
  rw [harguments]

theorem lnLikelihood_update (h : ∀ o ∈ m.observations, ∀ element, o.site ≠ .node i element)
    (outputs : List (List α)) :
    m.lnLikelihood (s.update i e x) outputs = m.lnLikelihood s outputs := by
  have hterms : ∀ o ∈ m.observations,
      observationTerms o (s.update i e x) outputs = observationTerms o s outputs := by
    intro o ho
    have hvalues : siteValues o.site (s.update i e x) outputs = siteValues o.site s outputs := by
      cases hsite : o.site with
      | node j element =>
        have hne : j ≠ i := fun heq => h o ho element (heq ▸ hsite)
        simp only [siteValues, State.getD_update_of_ne hne]
      | output j element => rfl
    unfold observationTerms
    rw [hvalues]
  unfold lnLikelihood
  rw [List.flatMap_def, List.flatMap_def, List.map_congr_left hterms]

end InfoFlow.Model
