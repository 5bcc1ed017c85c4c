import InfoFlow.Proofs.Model.Reachable
import InfoFlow.Proofs.Model.Targets

namespace InfoFlow

variable {α : Type}

/-- The node has the declared properties of an input. -/
structure Node.Declares (node : Node α) (v : Variable α) (role : Role) : Prop where
  name_eq : node.name = v.name
  family_eq : node.family = v.family
  role_eq : node.role = role
  width_eq : node.width = v.width
  isScalar_iff : node.isScalar = true ↔ v.shape = .scalar
  isHyper_eq : node.isHyper = v.isHyper

namespace Model

/-- A parameter and what it is bound to in a node: a literal is kept, and a reference becomes the node
of that name, which comes before node `i` and has one element or `width` of them. -/
inductive Binds (m : Model α) (i width : Nat) : Parameter α → Binding α → Prop where
  | value (x : α) : Binds m i width (.value x) (.value x)
  | weights (ws : List α) : Binds m i width (.weights ws) (.weights ws)
  | reference {j : Nat} {target : Node α} : m.nodes[j]? = some target → j < i →
      target.width = 1 ∨ target.width = width → Binds m i width (.reference target.name) (.node j)

/-- A site that there is: the node or output exists, and has the element. -/
def HasSite (m : Model α) : Site → Prop
  | .node i element =>
    ∃ node, m.nodes[i]? = some node ∧ ∀ e, element = some e → e < node.width
  | .output o element =>
    ∃ output, m.outputs[o]? = some output ∧ ∀ e, element = some e → e < output.width

/-- The tables of a model stand for the declarations of a program. -/
structure Represents (m : Model α) (p : Program α) : Prop where
  nodes_perm : (m.nodes.toList.map Node.declared).Perm (List.range p.inputs.length)
  node_declares {i : Nat} {node : Node α} : m.nodes[i]? = some node →
    ∃ v role, p.inputs[node.declared]? = some (v, role) ∧ node.Declares v role ∧
      List.Forall₂ (m.Binds i node.width) v.parameters node.bindings
  length_declaration : m.declaration.length = p.inputs.length
  declaration_iff {d i : Nat} :
    m.declaration[d]? = some i ↔ ∃ node, m.nodes[i]? = some node ∧ node.declared = d
  children_lt {i : Nat} {node : Node α} :
    m.nodes[i]? = some node → node.children.Pairwise (· < ·)
  mem_children_iff {i j : Nat} {node : Node α} : m.nodes[i]? = some node →
    (j ∈ node.children ↔ ∃ child, m.nodes[j]? = some child ∧ .node i ∈ child.bindings)
  arguments_eq :
    List.Forall₂ (fun i (input : (Variable α × Role) × Nat) => m.declaration[input.2]? = some i)
      m.arguments (p.inputs.zipIdx.filter fun ((v, _), _) => !v.isHyper)
  isObserved_iff {i : Nat} {node : Node α} : m.nodes[i]? = some node →
    (node.isObserved = true ↔ ∃ o ∈ m.observations, ∃ element, o.site = .node i element)
  hasSite {o : SiteObservation α} : o ∈ m.observations → m.HasSite o.site

namespace Represents

variable {m : Model α} {p : Program α} {d i : Nat} {node : Node α}

/-- The node that is listed at a place of the declaration declares the input there. -/
theorem declares (h : m.Represents p) (hd : m.declaration[d]? = some i)
    (hi : m.nodes[i]? = some node) :
    ∃ v role, p.inputs[d]? = some (v, role) ∧ node.Declares v role ∧
      List.Forall₂ (m.Binds i node.width) v.parameters node.bindings := by
  obtain ⟨listed, hlisted, rfl⟩ := h.declaration_iff.mp hd
  rw [hi] at hlisted
  cases hlisted
  exact h.node_declares hi

/-- Every input has a node. -/
theorem exists_node (h : m.Represents p) {v : Variable α} {role : Role}
    (hd : p.inputs[d]? = some (v, role)) :
    ∃ i node, m.nodes[i]? = some node ∧ node.declared = d ∧ node.Declares v role ∧
      List.Forall₂ (m.Binds i node.width) v.parameters node.bindings := by
  have hlt := h.length_declaration ▸ (List.getElem?_eq_some_iff.mp hd).1
  have hlisted := List.getElem?_eq_getElem hlt
  obtain ⟨node, hi, hdeclared⟩ := h.declaration_iff.mp hlisted
  obtain ⟨v', role', hd', hdeclares, hbinds⟩ := h.declares hlisted hi
  rw [hd] at hd'
  cases hd'
  exact ⟨_, node, hi, hdeclared, hdeclares, hbinds⟩

theorem width_pos [Scalar α] (h : m.Represents p) (hp : p.Declared)
    (hi : m.nodes[i]? = some node) : 0 < node.width := by
  obtain ⟨v, role, hd, hdeclares, _⟩ := h.node_declares hi
  rw [hdeclares.width_eq]
  exact (hp _ (List.mem_of_getElem? hd)).width_pos

end Represents

end Model

namespace Program

variable [Scalar α] {p : Program α} {parents : List (List Nat)} {order : List Nat}
  {observations : List (SiteObservation α)}

theorem declared_model_nodes (hparents : p.parents = .ok parents)
    (horder : Order.topological parents = .ok order) :
    (p.model parents order observations).nodes.toList.map Node.declared = order := by
  refine List.ext_getElem? fun i => ?_
  rw [List.getElem?_map, Array.getElem?_toList]
  cases hi : (p.model parents order observations).nodes[i]? with
  | none =>
    have hsize : (p.model parents order observations).nodes.size = _ :=
      size_model_nodes hparents horder
    have hout := Array.getElem?_eq_none_iff.mp hi
    rw [hsize] at hout
    simp [hout]
  | some node =>
    obtain ⟨d, v, role, hd, _, rfl⟩ := model_node_eq hparents horder hi
    rw [hd]
    rfl

theorem declares_node {isObserved : Nat → Bool} {declaration : List Nat} {d : Nat}
    {v : Variable α} {role : Role} :
    (p.node parents declaration isObserved d v role).Declares v role :=
  ⟨rfl, rfl, rfl, rfl, by simp [node], rfl⟩

/-- Every parameter of an input is bound as it was declared. -/
theorem binds_bindParameters (hp : p.Declared) (hparents : p.parents = .ok parents)
    (horder : Order.topological parents = .ok order) {i d : Nat} {v : Variable α} {role : Role}
    (hi : order[i]? = some d) (hd : p.inputs[d]? = some (v, role)) :
    List.Forall₂ ((p.model parents order observations).Binds i v.width) v.parameters
      (p.bindParameters (declarationOf order) v) := by
  have hv : v.Declared := hp _ (List.mem_of_getElem? hd)
  obtain ⟨hordered, hperm⟩ := Order.topological_spec horder
  obtain ⟨ps, hps, hof⟩ := parents_getElem? hparents hd
  obtain ⟨hresolved, _⟩ := mem_foldlM_parents hof
  unfold bindParameters
  rw [List.forall₂_map_right_iff, List.forall₂_same]
  intro parameter hparameter
  cases parameter with
  | value x => exact .value x
  | weights ws => exact .weights ws
  | reference target =>
    obtain ⟨name, hreference⟩ := hv.mem_references_iff.mpr hparameter
    obtain ⟨k, hk⟩ := hresolved _ hreference
    have hindex := inputIndex?_of_resolveReference hk
    obtain ⟨w, role', hw, rfl, hwidth⟩ := fits_of_resolveReference hk
    have hparent : k ∈ parents.getD d [] := by
      rw [List.getD_eq_getElem?_getD, hps]
      exact ((mem_parentsOf_iff hv hof).2 k).mpr ⟨_, hparameter, hindex⟩
    have hmem : k ∈ order := hordered.parents_mem d (List.mem_of_getElem? hi) k hparent
    obtain ⟨j, hj⟩ := List.mem_iff_getElem?.mp hmem
    simp only [hindex, Option.bind_some, (declarationOf_getElem? horder).mpr hj, Option.getD_some]
    have hnode : (p.model parents order observations).nodes[j]? = _ :=
      model_nodes_getElem? hparents horder j
    rw [hj, Option.bind_some, hw] at hnode
    exact .reference hnode (hordered.lt_of_mem_parents hi hj hparent) hwidth

theorem declaration_model_iff (hparents : p.parents = .ok parents)
    (horder : Order.topological parents = .ok order) {d i : Nat} :
    (declarationOf order)[d]? = some i ↔
      ∃ node, (p.model parents order observations).nodes[i]? = some node ∧ node.declared = d := by
  have hnodes : (p.model parents order observations).nodes.toList.map Node.declared = order :=
    declared_model_nodes hparents horder
  have hdeclared := congrArg (·[i]?) hnodes
  simp only [List.getElem?_map, Array.getElem?_toList] at hdeclared
  rw [declarationOf_getElem? horder, ← hdeclared, Option.map_eq_some_iff]

/-- What a partial map keeps of a list, one by one. -/
private theorem forall₂_filterMap {β γ : Type} (f : β → Option γ) (xs : List β) :
    List.Forall₂ (fun y x => f x = some y) (xs.filterMap f)
      (xs.filter fun x => (f x).isSome) := by
  induction xs with
  | nil => exact .nil
  | cons x xs ih =>
    cases hx : f x with
    | none => simpa [hx] using ih
    | some y => simpa [hx] using ih

/-- The arguments are the nodes of the inputs that are not hyper-parameters, as these were declared. -/
theorem arguments_model (hparents : p.parents = .ok parents)
    (horder : Order.topological parents = .ok order) :
    List.Forall₂ (fun i (input : (Variable α × Role) × Nat) =>
        (declarationOf order)[input.2]? = some i)
      (p.model parents order observations).arguments
      (p.inputs.zipIdx.filter fun ((v, _), _) => !v.isHyper) := by
  have hkept : p.inputs.zipIdx.filter (fun ((v, _), _) => !v.isHyper) =
      p.inputs.zipIdx.filter fun ((v, _), d) =>
        (if v.isHyper then none else (declarationOf order)[d]?).isSome := by
    refine List.filter_congr fun ((v, role), d) hmem => ?_
    have hlt : d < (declarationOf order).length := by
      rw [length_declarationOf hparents horder]
      exact (List.getElem?_eq_some_iff.mp (List.mem_zipIdx_iff_getElem?.mp hmem)).1
    cases hhyper : v.isHyper <;> simp [hhyper, hlt]
  rw [hkept]
  refine (forall₂_filterMap _ p.inputs.zipIdx).imp fun i ((v, role), d) hi => ?_
  by_cases hhyper : v.isHyper = true
  · simp [hhyper] at hi
  · simpa [hhyper] using hi

/-- A site that a selector stands for is one of the model. -/
theorem hasSite_of_isSiteOf (hparents : p.parents = .ok parents)
    (horder : Order.topological parents = .ok order) {s : Selector} {site : Site}
    (h : p.IsSiteOf (declarationOf order) s site) :
    (p.model parents order observations).HasSite site := by
  cases h with
  | output houtput _ hfits => exact ⟨_, houtput, hfits⟩
  | @node d i v role hd hi _ hfits =>
    have hnode : (p.model parents order observations).nodes[i]? = _ :=
      model_nodes_getElem? hparents horder i
    rw [(declarationOf_getElem? horder).mp hi, Option.bind_some, hd] at hnode
    exact ⟨_, hnode, hfits⟩

omit [Scalar α] in
/-- Bound observations are on sites that targets stand for. -/
theorem isSiteOf_of_bindObservation (hnames : p.names.Nodup) {declaration : List Nat}
    (hdeclaration : p.inputs.length ≤ declaration.length) {o : Observation α}
    {bound : SiteObservation α} (h : p.bindObservation declaration o = .ok bound) :
    ∃ s, p.IsSiteOf declaration s bound.site := by
  obtain ⟨⟨site, isDiscrete⟩, hsite, h⟩ := Except.bind_eq_ok_iff.mp h
  cases h
  rcases observationSite_cases hnames hdeclaration o.target with
    ⟨s, found, _, hok, hfound, _⟩ | ⟨herror, _⟩
  · rw [hsite] at hok
    cases hok
    exact ⟨s, hfound⟩
  · rw [hsite] at herror
    cases herror

omit [Scalar α] in
theorem isObservedInput_iff {declaration : List Nat} {d i : Nat}
    (hi : declaration[d]? = some i) :
    isObservedInput declaration observations d = true ↔
      ∃ o ∈ observations, ∃ element, o.site = .node i element := by
  unfold isObservedInput
  rw [List.any_eq_true]
  refine exists_congr fun o => and_congr_right fun _ => ?_
  cases o.site with
  | node k element =>
    simp only [hi, beq_iff_eq, Option.some.injEq, Site.node.injEq, exists_and_left, exists_eq',
      and_true]
    exact eq_comm
  | output k element => simp

/-- The children of a node stand in increasing order. -/
theorem children_node_lt (horder : Order.topological parents = .ok order)
    {isObserved : Nat → Bool} {d : Nat} {v : Variable α} {role : Role} :
    (p.node parents (declarationOf order) isObserved d v role).children.Pairwise (· < ·) := by
  have hle : (p.node parents (declarationOf order) isObserved d v role).children.Pairwise
      (· ≤ ·) := by
    have hsorted := @List.pairwise_mergeSort Nat (fun a b => decide (a ≤ b))
      (by simpa using fun a b c => Nat.le_trans) (by simpa using Nat.le_total)
    exact (hsorted _).imp of_decide_eq_true
  exact hle.imp₂ (fun a b hab hne => Nat.lt_of_le_of_ne hab hne) (nodup_node_children horder)

/-- What is assembled from the references and observations of a program stands for its declarations. -/
theorem represents_of_wellFormed (hp : p.Declared) {m : Model α} (hm : p.compile = .ok m)
    (hwf : m.WellFormed) : m.Represents p := by
  obtain ⟨parents, order, observations, hdistinct, hparents, horder, hobservations, rfl⟩ :=
    compile_eq hm
  have hnames := names_nodup hdistinct
  obtain ⟨hordered, hperm⟩ := Order.topological_spec horder
  have hlength := length_declarationOf hparents horder
  refine ⟨?_, ?_, hlength, declaration_model_iff hparents horder, ?_, ?_,
    arguments_model hparents horder, ?_, ?_⟩
  · rw [declared_model_nodes hparents horder, ← length_parents hparents]
    exact hperm
  · intro i node hnode
    obtain ⟨d, v, role, hi, hd, rfl⟩ := model_node_eq hparents horder hnode
    exact ⟨v, role, hd, declares_node, binds_bindParameters hp hparents horder hi hd⟩
  · intro i node hnode
    obtain ⟨d, v, role, _, _, rfl⟩ := model_node_eq hparents horder hnode
    exact children_node_lt horder
  · intro i j node hnode
    exact (Model.isParent_iff hwf hnode).symm
  · intro i node hnode
    obtain ⟨d, v, role, hi, _, rfl⟩ := model_node_eq hparents horder hnode
    exact isObservedInput_iff ((declarationOf_getElem? horder).mpr hi)
  · intro o ho
    obtain ⟨declared, _, hbound⟩ := Except.exists_of_mem_mapM hobservations ho
    obtain ⟨s, hs⟩ := isSiteOf_of_bindObservation hnames hlength.ge hbound
    exact hasSite_of_isSiteOf hparents horder hs

/-- The tables of a compiled model stand for the program's declarations. -/
theorem represents_of_compile (hp : p.Declared) {m : Model α} (h : p.compile = .ok m) :
    m.Represents p :=
  represents_of_wellFormed hp h (wellFormed_of_compile hp h)

/-- A coin that is declared after the argument that shows it, which is observed to be 1. -/
noncomputable def shownCoin : Program Exact where
  name := "shown"
  inputs := [(⟨"shown", .constant, [.reference "coin"], .scalar, false⟩, .known),
    (⟨"coin", .bernoulli, [.value (.real 0.5)], .scalar, true⟩, .secret)]
  outputs := [⟨"out", true, 1⟩]
  transformation arguments := .ok arguments
  observations := [⟨"shown[0]", [(.eq, .real 1)], .real 0⟩]

/-- The graph of `shownCoin`, with the coin as its first node. -/
noncomputable def shownCoinModel : Model Exact :=
  shownCoin.model [[1], []] [1, 0] [⟨.node 1 (some 0), [(.eq, .real 1)], .real 0, true⟩]

theorem shownCoin_declared : shownCoin.Declared := by
  have hcoin := Exact.declare_bernoulli "coin" (p := 0.5) (by norm_num) (by norm_num)
  have hshown : Variable.declare (α := Exact) "shown" .constant [.reference "coin"] =
      .ok ⟨"shown", .constant, [.reference "coin"], .scalar, false⟩ := rfl
  intro input hinput
  simp only [shownCoin, List.mem_cons, List.not_mem_nil, or_false] at hinput
  rcases hinput with rfl | rfl
  · exact .declare hshown
  · exact .hyper (.declare hcoin)

theorem shownCoin_assemble : shownCoin.assemble = .ok shownCoinModel := by
  have hselector : Selector.parse? "shown[0]" = some ⟨"shown", some 0⟩ := by decide +kernel
  have hsite : shownCoin.observationSite (declarationOf [1, 0]) "shown[0]" =
      .ok (.node 1 (some 0), true) := by
    unfold observationSite
    rw [hselector]
    rfl
  have hobservations :
      shownCoin.observations.mapM (shownCoin.bindObservation (declarationOf [1, 0])) =
        .ok [⟨.node 1 (some 0), [(.eq, .real 1)], .real 0, true⟩] := by
    refine Except.mapM_eq_ok_iff.mpr (.cons ?_ .nil)
    unfold bindObservation
    rw [hsite]
    rfl
  unfold assemble
  refine Except.bind_eq_ok_iff.mpr ⟨(), rfl, ?_⟩
  refine Except.bind_eq_ok_iff.mpr ⟨[[1], []], rfl, ?_⟩
  refine Except.bind_eq_ok_iff.mpr ⟨[1, 0], rfl, ?_⟩
  refine Except.bind_eq_ok_iff.mpr ⟨(), checkLiterals_eq_ok shownCoin_declared _, ?_⟩
  exact Except.bind_eq_ok_iff.mpr ⟨_, hobservations, rfl⟩

/-- Every draw shows the coin. -/
theorem shownCoin_samplePrior {σ : Type} [RandomWords σ] :
    (shownCoinModel.samplePrior : Random σ _).Always fun drawn => ∃ x : ℝ,
      drawn = .ok #[#[.real x], #[.real x]] ∧
        shownCoinModel.evaluate #[#[.real x], #[.real x]] = .ok [[.real x]] := by
  obtain ⟨coin, shown, hnodes, ⟨hwidth, hliteral⟩, hwidth', hliteral', hbindings, hfamily⟩ :
      ∃ coin shown, shownCoinModel.nodes.toList = [coin, shown] ∧
        (coin.width = 1 ∧ coin.literal = some (.bernoulli (.real 0.5))) ∧
        shown.width = 1 ∧ shown.literal = none ∧ shown.bindings = [.node 0] ∧
          shown.family = .constant := by
    refine ⟨_, _, rfl, ⟨rfl, ?_⟩, rfl, rfl, rfl, rfl⟩
    exact congrArg (·.bind (·.toOption))
      (Exact.distribution?_bernoulli "coin" true (p := 0.5) (by norm_num) (by norm_num))
  unfold Model.samplePrior
  rw [hnodes]
  refine Exact.drawNodes_bernoulli_cons hwidth hliteral fun x => ?_
  refine Exact.drawNodes_copy_cons hwidth' hliteral' hbindings hfamily rfl ?_
  exact Random.Always.of_pure ⟨x, rfl, rfl⟩

theorem shownCoin_compile : shownCoin.compile = .ok shownCoinModel := by
  refine compile_of_samplePrior shownCoin_assemble (shownCoin_samplePrior.mono ?_)
  rintro drawn ⟨x, rfl, houtputs⟩
  exact ⟨_, _, rfl, houtputs⟩

/-- The tables of the shown coin, where both orders differ. -/
theorem shownCoin_represents :
    shownCoin.Declared ∧ shownCoin.compile = .ok shownCoinModel ∧
      shownCoinModel.declaration = [1, 0] ∧ shownCoinModel.Represents shownCoin :=
  ⟨shownCoin_declared, shownCoin_compile, rfl,
    represents_of_compile shownCoin_declared shownCoin_compile⟩

end Program

end InfoFlow
