import InfoFlow.Proofs.Model.Dependence
import InfoFlow.Proofs.Model.Reachable

namespace InfoFlow.Model

variable {α : Type} {m : Model α} {i j : Nat}

def HasChild (m : Model α) (i j : Nat) : Prop := ∃ node, m.nodes[i]? = some node ∧ j ∈ node.children

/-- From the node, some path along children leads to a node that is passed to the transformation. The path
may have no steps. -/
def LeadsToArgument (m : Model α) (i : Nat) : Prop :=
  ∃ j node, Relation.ReflTransGen m.HasChild i j ∧ m.nodes[j]? = some node ∧ node.isHyper = false

theorem hasChild_iff (hm : m.WellFormed) : m.HasChild i j ↔ m.IsParent i j := by
  constructor
  · rintro ⟨node, hi, hj⟩
    exact (isParent_iff hm hi).mpr hj
  · rintro ⟨child, hj, hbinding⟩
    have hlt : i < m.nodes.size :=
      (hm.binding_lt hj hbinding).trans (Array.getElem?_eq_some_iff.mp hj).1
    have hi : m.nodes[i]? = some m.nodes[i] := Array.getElem?_eq_getElem hlt
    exact ⟨m.nodes[i], hi, (isParent_iff hm hi).mp ⟨child, hj, hbinding⟩⟩

theorem leadsToArgument_iff (hm : m.WellFormed) : m.LeadsToArgument i ↔ m.Reaches i := by
  have hchild : m.HasChild = m.IsParent := funext₂ fun _ _ => propext (hasChild_iff hm)
  unfold LeadsToArgument Reaches IsAncestorOrSelf
  rw [hchild]
  constructor
  · rintro ⟨j, node, hpath, hj, hhyper⟩
    exact ⟨j, hm.mem_arguments_iff.mpr ⟨node, hj, hhyper⟩, hpath⟩
  · rintro ⟨j, hj, hpath⟩
    obtain ⟨node, hnode, hhyper⟩ := hm.mem_arguments_iff.mp hj
    exact ⟨j, node, hpath, hnode, hhyper⟩

theorem LeadsToArgument.of_mem_arguments (hm : m.WellFormed) (h : i ∈ m.arguments) :
    m.LeadsToArgument i := by
  obtain ⟨node, hi, hhyper⟩ := hm.mem_arguments_iff.mp h
  exact ⟨i, node, .refl, hi, hhyper⟩

/-- What leads to an argument leads there from its parents as well. -/
theorem LeadsToArgument.of_binding (hm : m.WellFormed) (h : m.LeadsToArgument i) {node : Node α}
    (hi : m.nodes[i]? = some node) (hj : .node j ∈ node.bindings) : m.LeadsToArgument j := by
  obtain ⟨k, argument, hpath, hk, hhyper⟩ := h
  exact ⟨k, argument, .head ((hasChild_iff hm).mpr ⟨node, hi, hj⟩) hpath, hk, hhyper⟩

open Classical in
/-- The secrets that are listed, in the order of their nodes. -/
theorem unreachableSecrets_eq (hm : m.WellFormed) :
    m.unreachableSecrets = (m.nodes.toList.zipIdx.filter fun (node, i) =>
      node.role = .secret ∧ ¬ m.LeadsToArgument i).map (·.1.name) := by
  unfold unreachableSecrets
  refine congrArg (List.map _) (List.filter_congr fun (node, i) hmem => ?_)
  have hi : m.nodes[i]? = some node := by simpa using List.mem_zipIdx_iff_getElem?.mp hmem
  have hreached := reachable_iff hm (Array.getElem?_eq_some_iff.mp hi).1
  rw [← leadsToArgument_iff hm] at hreached
  rw [Bool.eq_iff_iff]
  simp only [Bool.and_eq_true, beq_iff_eq, Bool.not_eq_true', decide_eq_true_eq, ← hreached,
    Bool.not_eq_true]

/-- The two states are the same at every node that leads to an argument. -/
def Agree (m : Model α) (s t : State α) : Prop :=
  ∀ i, m.LeadsToArgument i → s.getD i #[] = t.getD i #[]

variable [Scalar α] {s t : State α}

theorem Agree.resolve_eq (hm : m.WellFormed) (h : m.Agree s t) (hi : m.LeadsToArgument i) (e : Nat) :
    m.resolve i e s = m.resolve i e t := by
  unfold resolve
  cases hnode : m.nodes[i]? with
  | none => rfl
  | some node => exact resolveNode_congr (fun j hj => h j (hi.of_binding hm hnode hj)) e

theorem Agree.evaluate_eq (hm : m.WellFormed) (h : m.Agree s t) : m.evaluate s = m.evaluate t := by
  have harguments : m.argumentValues s = m.argumentValues t := by
    refine List.map_congr_left fun i hi => ?_
    have hsame := h i (.of_mem_arguments hm hi)
    unfold State.value
    rw [hsame]
  unfold evaluate
  rw [harguments]

open Classical in
/-- The secrets listed as unreachable are those from which no path leads to an argument. Whatever is not on
such a path changes neither the outputs nor the distribution of any element that is. -/
theorem unreachableSecrets_irrelevant {p : Program α} (hp : p.Declared) (hm : p.compile = .ok m) :
    m.unreachableSecrets = (m.nodes.toList.zipIdx.filter fun (node, i) =>
        node.role = .secret ∧ ¬ m.LeadsToArgument i).map (·.1.name) ∧
      ∀ s t : State α, m.Agree s t → m.evaluate s = m.evaluate t ∧
        ∀ i e, m.LeadsToArgument i → m.resolve i e s = m.resolve i e t := by
  have hwf := Program.wellFormed_of_compile hp hm
  exact ⟨unreachableSecrets_eq hwf, fun s t h =>
    ⟨h.evaluate_eq hwf, fun i e hi => h.resolve_eq hwf hi e⟩⟩

/-- The copy of a coin is listed, and neither the outputs nor the other copy depend on its value. -/
theorem copiedCoin_irrelevant :
    copiedCoin.Declared ∧ copiedCoin.compile = .ok copiedCoinModel ∧
      "copy" ∈ copiedCoinModel.unreachableSecrets ∧
      ∀ x y z : ℝ, copiedCoinModel.Agree #[#[.real x], #[.real y], #[.real x]]
          #[#[.real x], #[.real z], #[.real x]] ∧
        copiedCoinModel.evaluate #[#[.real x], #[.real y], #[.real x]] =
          copiedCoinModel.evaluate #[#[.real x], #[.real z], #[.real x]] ∧
        copiedCoinModel.resolve 2 0 #[#[.real x], #[.real y], #[.real x]] =
          copiedCoinModel.resolve 2 0 #[#[.real x], #[.real z], #[.real x]] := by
  have hwf := Program.wellFormed_of_compile copiedCoin_declared copiedCoin_compile
  have hcopy : ¬ copiedCoinModel.LeadsToArgument 1 :=
    fun h => copiedCoin_not_reaches ((leadsToArgument_iff hwf).mp h)
  have hshown : copiedCoinModel.LeadsToArgument 2 :=
    .of_mem_arguments hwf (List.mem_singleton.mpr rfl)
  obtain ⟨hlisted, hruns⟩ := unreachableSecrets_irrelevant copiedCoin_declared copiedCoin_compile
  refine ⟨copiedCoin_declared, copiedCoin_compile, ?_, fun x y z => ?_⟩
  · rw [hlisted]
    have hnode : copiedCoinModel.nodes[1]? = some copiedCoinModel.nodes[1] := rfl
    refine List.mem_map.mpr ⟨(copiedCoinModel.nodes[1], 1), List.mem_filter.mpr ⟨?_, ?_⟩, rfl⟩
    · exact List.mem_zipIdx_iff_getElem?.mpr (Array.getElem?_toList.trans hnode)
    · simp only [decide_eq_true_eq]
      exact ⟨rfl, hcopy⟩
  · have hagree : copiedCoinModel.Agree #[#[.real x], #[.real y], #[.real x]]
        #[#[.real x], #[.real z], #[.real x]] := by
      intro i hi
      match i with
      | 0 => rfl
      | 1 => exact absurd hi hcopy
      | 2 => rfl
      | i + 3 => rfl
    obtain ⟨hevaluate, hresolve⟩ := hruns _ _ hagree
    exact ⟨hagree, hevaluate, hresolve 2 0 hshown⟩

end InfoFlow.Model
