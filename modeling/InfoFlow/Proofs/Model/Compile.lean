import InfoFlow.Proofs.Model.Order
import InfoFlow.Proofs.Model.References
import InfoFlow.Proofs.Program.Declared
import InfoFlow.Proofs.Program.Except
import InfoFlow.Proofs.Random.Always

namespace InfoFlow

variable {α : Type}

/-- A model whose nodes, children, arguments and observations fit together. Bindings and children are
two views of the same edges, and edges lead to later nodes. -/
structure Model.WellFormed (m : Model α) : Prop where
  binding_lt {i j : Nat} {node : Node α} :
    m.nodes[i]? = some node → .node j ∈ node.bindings → j < i
  mem_children_iff {i j : Nat} {parent child : Node α} :
    m.nodes[i]? = some parent → m.nodes[j]? = some child →
      (j ∈ parent.children ↔ .node i ∈ child.bindings)
  child_lt_size {i j : Nat} {parent : Node α} :
    m.nodes[i]? = some parent → j ∈ parent.children → j < m.nodes.size
  children_nodup {i : Nat} {parent : Node α} :
    m.nodes[i]? = some parent → parent.children.Nodup
  isObserved_of_site {o : SiteObservation α} {i : Nat} {element : Option Nat} {node : Node α} :
    o ∈ m.observations → o.site = .node i element → m.nodes[i]? = some node →
      node.isObserved = true
  mem_arguments_iff {i : Nat} :
    i ∈ m.arguments ↔ ∃ node, m.nodes[i]? = some node ∧ node.isHyper = false
  eq_of_name_eq {i j : Nat} {a b : Node α} :
    m.nodes[i]? = some a → m.nodes[j]? = some b → a.name = b.name → i = j
  declaration_declared {i : Nat} {node : Node α} :
    m.nodes[i]? = some node → m.declaration[node.declared]? = some i
  declaration_lt_size {i : Nat} : i ∈ m.declaration → i < m.nodes.size

theorem Model.WellFormed.exists_child {m : Model α} (h : m.WellFormed) {i j : Nat}
    {parent : Node α} (hi : m.nodes[i]? = some parent) (hj : j ∈ parent.children) :
    ∃ child, m.nodes[j]? = some child :=
  ⟨_, Array.getElem?_eq_getElem (h.child_lt_size hi hj)⟩

theorem Model.WellFormed.lt_of_mem_children {m : Model α} (h : m.WellFormed) {i j : Nat}
    {parent : Node α} (hi : m.nodes[i]? = some parent) (hj : j ∈ parent.children) : i < j := by
  obtain ⟨child, hchild⟩ := h.exists_child hi hj
  exact h.binding_lt hchild ((h.mem_children_iff hi hchild).mp hj)

namespace Program

variable {p : Program α}

/-- Collecting parents succeeds only if every reference is resolved, and collects just those. -/
theorem mem_foldlM_parents {d : Nat} {v : Variable α} {refs : List (String × String)}
    {start ps : List Nat}
    (h : refs.foldlM (fun parents (reference : String × String) => do
      let j ← p.resolveReference d v reference.1 reference.2
      return if parents.contains j then parents else parents ++ [j]) start = .ok ps) :
    (∀ r ∈ refs, ∃ j, p.resolveReference d v r.1 r.2 = .ok j) ∧
      ∀ j, j ∈ ps ↔ j ∈ start ∨ ∃ r ∈ refs, p.resolveReference d v r.1 r.2 = .ok j := by
  induction refs generalizing start with
  | nil =>
    cases h
    simp
  | cons r refs ih =>
    rw [List.foldlM_cons] at h
    obtain ⟨next, hnext, hrest⟩ := Except.bind_eq_ok_iff.mp h
    obtain ⟨k, hk, hnext⟩ := Except.bind_eq_ok_iff.mp hnext
    obtain ⟨hresolved, hmem⟩ := ih hrest
    have hadded (j : Nat) : j ∈ next ↔ j ∈ start ∨ j = k := by
      cases hnext
      by_cases hin : k ∈ start
      · simp only [List.contains_eq_mem, hin, decide_true, if_true]
        exact ⟨.inl, fun h => h.elim id fun h => h ▸ hin⟩
      · simp [List.contains_eq_mem, hin]
    refine ⟨by simpa [hk] using hresolved, fun j => ?_⟩
    rw [hmem j, hadded j, or_assoc, List.exists_mem_cons_iff, hk, Except.ok.injEq, @eq_comm _ j k]

variable {parents : List (List Nat)} {order : List Nat}

theorem length_parents (hparents : p.parents = .ok parents) :
    parents.length = p.inputs.length := by
  have hall := Except.mapM_eq_ok_iff.mp hparents
  simpa using hall.length_eq.symm

theorem parents_getElem? (hparents : p.parents = .ok parents) {d : Nat} {v : Variable α}
    {role : Role} (hd : p.inputs[d]? = some (v, role)) :
    ∃ ps, parents[d]? = some ps ∧ p.parentsOf d v = .ok ps := by
  have hall := Except.mapM_eq_ok_iff.mp hparents
  have hzip : p.inputs.zipIdx[d]? = some ((v, role), d) := by simp [hd]
  obtain ⟨hlt, hget⟩ := List.getElem?_eq_some_iff.mp hzip
  have hlt' : d < parents.length := hall.length_eq ▸ hlt
  refine ⟨parents[d], List.getElem?_eq_getElem hlt', ?_⟩
  have hparent := hall.get hlt hlt'
  simpa [hget] using hparent

/-- Positions in the node order and in the declaration are inverse to each other. -/
theorem declarationOf_getElem? (horder : Order.topological parents = .ok order) {d i : Nat} :
    (declarationOf order)[d]? = some i ↔ order[i]? = some d := by
  obtain ⟨hordered, hperm⟩ := Order.topological_spec horder
  have hlength : order.length = parents.length := by simpa using hperm.length_eq
  unfold declarationOf
  rw [List.getElem?_map, Option.map_eq_some_iff]
  constructor
  · rintro ⟨d', hd', rfl⟩
    obtain ⟨hlt, rfl⟩ := List.getElem?_eq_some_iff.mp hd'
    rw [List.length_range] at hlt
    have hmem : d ∈ order := hperm.mem_iff.mpr (List.mem_range.mpr (by omega))
    rw [List.getElem_range, List.getElem?_eq_getElem (List.idxOf_lt_length_of_mem hmem)]
    simp
  · intro hi
    obtain ⟨hlt, rfl⟩ := List.getElem?_eq_some_iff.mp hi
    have hd : order[i] < parents.length := hordered.lt_length _ (List.getElem_mem hlt)
    exact ⟨order[i], by simp [hlength, hd], hordered.nodup.idxOf_getElem i hlt⟩

theorem length_declarationOf (hparents : p.parents = .ok parents)
    (horder : Order.topological parents = .ok order) :
    (declarationOf order).length = p.inputs.length := by
  obtain ⟨_, hperm⟩ := Order.topological_spec horder
  have hlength := hperm.length_eq
  simp only [List.length_range] at hlength
  simp [declarationOf, hlength, length_parents hparents]

theorem inputOrder_eq_ok_iff :
    p.inputOrder parents = .ok order ↔ Order.topological parents = .ok order := by
  unfold inputOrder
  cases Order.topological parents with
  | error stuck => simp [Except.mapError]
  | ok found => simp [Except.mapError]

variable {observations : List (SiteObservation α)}

variable [Scalar α]

/-- The parents of an input are the inputs that its parameters reference. -/
theorem mem_parentsOf_iff {d : Nat} {v : Variable α} {ps : List Nat} (hv : v.Declared)
    (h : p.parentsOf d v = .ok ps) :
    (∀ target, .reference target ∈ v.parameters → ∃ j, p.inputIndex? target = some j) ∧
      ∀ j, j ∈ ps ↔
        ∃ target, .reference target ∈ v.parameters ∧ p.inputIndex? target = some j := by
  obtain ⟨hresolved, hmem⟩ := mem_foldlM_parents h
  have htarget (target : String) (ht : .reference target ∈ v.parameters) :
      ∃ parameter k, (parameter, target) ∈ v.references ∧
        p.resolveReference d v parameter target = .ok k := by
    obtain ⟨parameter, hr⟩ := hv.mem_references_iff.mpr ht
    obtain ⟨k, hk⟩ := hresolved _ hr
    exact ⟨parameter, k, hr, hk⟩
  refine ⟨fun target ht => ?_, fun j => ?_⟩
  · obtain ⟨_, k, _, hk⟩ := htarget target ht
    exact ⟨k, inputIndex?_of_resolveReference hk⟩
  · rw [hmem j]
    constructor
    · rintro (hnil | ⟨⟨parameter, target⟩, hr, hj⟩)
      · simp at hnil
      · exact ⟨target, hv.mem_references_iff.mp ⟨parameter, hr⟩,
          inputIndex?_of_resolveReference hj⟩
    · rintro ⟨target, ht, hj⟩
      obtain ⟨parameter, k, hr, hk⟩ := htarget target ht
      have heq := inputIndex?_of_resolveReference hk
      rw [hj] at heq
      cases heq
      exact .inr ⟨_, hr, hk⟩

/-- The literals of declared variables make up distributions. -/
theorem checkLiterals_eq_ok (hp : p.Declared) (order : List Nat) :
    p.checkLiterals order = .ok () := by
  unfold checkLiterals
  induction order with
  | nil => rfl
  | cons d order ih =>
    refine Except.bind_eq_ok_iff.mpr ⟨(), ?_, ih⟩
    beta_reduce
    split
    · rename_i e he
      obtain ⟨⟨v, role⟩, hv, he⟩ := Option.bind_eq_some_iff.mp he
      exact absurd he ((hp _ (List.mem_of_getElem? hv)).distribution?_ne_error e)
    · rfl

/-- What compilation computes on the way to a model. -/
theorem compile_eq {m : Model α} (h : p.compile = .ok m) :
    ∃ parents order observations, p.checkNames = .ok () ∧ p.parents = .ok parents ∧
      Order.topological parents = .ok order ∧
      p.observations.mapM (p.bindObservation (declarationOf order)) = .ok observations ∧
      m = p.model parents order observations := by
  obtain ⟨assembled, hassembled, h⟩ := Except.bind_eq_ok_iff.mp h
  obtain ⟨_, _, h⟩ := Except.bind_eq_ok_iff.mp h
  cases h
  obtain ⟨_, hnames, h⟩ := Except.bind_eq_ok_iff.mp (Except.mapError_eq_ok_iff.mp hassembled)
  obtain ⟨parents, hparents, h⟩ := Except.bind_eq_ok_iff.mp h
  obtain ⟨order, horder, h⟩ := Except.bind_eq_ok_iff.mp h
  obtain ⟨_, _, h⟩ := Except.bind_eq_ok_iff.mp h
  obtain ⟨observations, hobservations, h⟩ := Except.bind_eq_ok_iff.mp h
  cases h
  exact ⟨parents, order, observations, hnames, hparents, inputOrder_eq_ok_iff.mp horder,
    hobservations, rfl⟩

theorem model_nodes_getElem? (hparents : p.parents = .ok parents)
    (horder : Order.topological parents = .ok order) (i : Nat) :
    (p.model parents order observations).nodes[i]? =
      order[i]?.bind fun d => p.inputs[d]?.map fun (v, role) =>
        p.node parents (declarationOf order)
          (isObservedInput (declarationOf order) observations) d v role := by
  obtain ⟨hordered, _⟩ := Order.topological_spec horder
  change (List.filterMap _ order).toArray[i]? = _
  rw [List.getElem?_toArray]
  refine getElem?_filterMap_of_isSome (fun d hd => ?_) i
  have hlt : d < p.inputs.length := length_parents hparents ▸ hordered.lt_length d hd
  rw [List.getElem?_eq_getElem hlt]
  rfl

/-- Every node is the node of an input, at the place that the node order gives to the input. -/
theorem model_node_eq (hparents : p.parents = .ok parents)
    (horder : Order.topological parents = .ok order) {i : Nat} {node : Node α}
    (h : (p.model parents order observations).nodes[i]? = some node) :
    ∃ d v role, order[i]? = some d ∧ p.inputs[d]? = some (v, role) ∧
      node = p.node parents (declarationOf order)
        (isObservedInput (declarationOf order) observations) d v role := by
  rw [model_nodes_getElem? hparents horder, Option.bind_eq_some_iff] at h
  obtain ⟨d, hd, h⟩ := h
  obtain ⟨⟨v, role⟩, hv, rfl⟩ := Option.map_eq_some_iff.mp h
  exact ⟨d, v, role, hd, hv, rfl⟩

theorem size_model_nodes (hparents : p.parents = .ok parents)
    (horder : Order.topological parents = .ok order) :
    (p.model parents order observations).nodes.size = order.length := by
  obtain ⟨hordered, _⟩ := Order.topological_spec horder
  change (List.filterMap _ order).toArray.size = _
  rw [List.size_toArray, List.length_filterMap_eq_countP, List.countP_eq_length]
  intro d hd
  have hlt : d < p.inputs.length := length_parents hparents ▸ hordered.lt_length d hd
  rw [List.getElem?_eq_getElem hlt]
  rfl

/-- The nodes a node is bound to are those of the inputs that its own input has as parents. -/
theorem node_mem_bindings_iff (hp : p.Declared) (hparents : p.parents = .ok parents)
    (horder : Order.topological parents = .ok order) {d j : Nat} {v : Variable α} {role : Role}
    (hd : p.inputs[d]? = some (v, role)) :
    .node j ∈ p.bindParameters (declarationOf order) v ↔
      ∃ k, k ∈ parents.getD d [] ∧ order[j]? = some k := by
  obtain ⟨ps, hps, hof⟩ := parents_getElem? hparents hd
  have hv : v.Declared := hp _ (List.mem_of_getElem? hd)
  obtain ⟨hresolved, hmem⟩ := mem_parentsOf_iff hv hof
  have hgetD : parents.getD d [] = ps := by rw [List.getD_eq_getElem?_getD, hps]; rfl
  obtain ⟨_, hperm⟩ := Order.topological_spec horder
  have hbound {target : String} {k : Nat} (hk : p.inputIndex? target = some k) :
      order[order.idxOf k]? = some k := by
    have hin : k ∈ order := hperm.mem_iff.mpr
      (List.mem_range.mpr (length_parents hparents ▸ inputIndex?_lt hk))
    rw [List.getElem?_eq_getElem (List.idxOf_lt_length_of_mem hin)]
    simp
  rw [hgetD]
  unfold bindParameters
  constructor
  · intro h
    obtain ⟨parameter, hparameter, heq⟩ := List.mem_map.mp h
    cases parameter with
    | value x => cases heq
    | weights ws => cases heq
    | reference target =>
      obtain ⟨k, hk⟩ := hresolved target hparameter
      have hdeclared := (declarationOf_getElem? horder).mpr (hbound hk)
      simp only [hk, Option.bind_some, hdeclared, Option.getD_some, Binding.node.injEq] at heq
      exact ⟨k, (hmem k).mpr ⟨target, hparameter, hk⟩, heq ▸ hbound hk⟩
  · rintro ⟨k, hk, hj⟩
    obtain ⟨target, hparameter, hindex⟩ := (hmem k).mp hk
    refine List.mem_map.mpr ⟨.reference target, hparameter, ?_⟩
    simp only [hindex, Option.bind_some, (declarationOf_getElem? horder).mpr hj,
      Option.getD_some]

/-- The children of a node are those whose inputs have its own input as a parent. -/
theorem mem_node_children_iff (horder : Order.topological parents = .ok order)
    {isObserved : Nat → Bool} {d k : Nat} {v : Variable α} {role : Role} :
    k ∈ (p.node parents (declarationOf order) isObserved d v role).children ↔
      ∃ child, d ∈ parents.getD child [] ∧ order[k]? = some child := by
  change k ∈ (List.filterMap _ parents.zipIdx).mergeSort ↔ _
  rw [List.mem_mergeSort, List.mem_filterMap]
  constructor
  · rintro ⟨⟨ps, child⟩, hmem, heq⟩
    have hps := List.mem_zipIdx_iff_getElem?.mp hmem
    simp only at hps heq
    split at heq
    · rename_i hd
      refine ⟨child, ?_, (declarationOf_getElem? horder).mp heq⟩
      rw [List.getD_eq_getElem?_getD, hps]
      simpa using hd
    · cases heq
  · rintro ⟨child, hd, hk⟩
    obtain ⟨hordered, _⟩ := Order.topological_spec horder
    have hlt := hordered.lt_length child (List.mem_of_getElem? hk)
    have hps : parents[child]? = some parents[child] := List.getElem?_eq_getElem hlt
    rw [List.getD_eq_getElem?_getD, hps] at hd
    refine ⟨(parents[child], child), List.mem_zipIdx_iff_getElem?.mpr hps, ?_⟩
    have hcontains : parents[child].contains d = true := by simpa using hd
    simp only [hcontains, if_true]
    exact (declarationOf_getElem? horder).mpr hk

theorem nodup_node_children (horder : Order.topological parents = .ok order)
    {isObserved : Nat → Bool} {d : Nat} {v : Variable α} {role : Role} :
    (p.node parents (declarationOf order) isObserved d v role).children.Nodup := by
  change ((List.filterMap _ parents.zipIdx).mergeSort _).Nodup
  rw [(List.mergeSort_perm _ _).nodup_iff]
  have hpositions : parents.zipIdx.Pairwise fun a b => a.2 ≠ b.2 := by
    rw [← List.pairwise_map, List.zipIdx_map_snd]
    exact List.nodup_range'
  refine hpositions.filterMap _ ?_
  rintro ⟨ps, child⟩ ⟨ps', child'⟩ hne k hk k' hk' rfl
  simp only at hne hk hk'
  split at hk
  · split at hk'
    · have hchild := (declarationOf_getElem? horder).mp hk
      have hchild' := (declarationOf_getElem? horder).mp hk'
      rw [hchild] at hchild'
      exact hne (Option.some_inj.mp hchild')
    · cases hk'
  · cases hk

theorem mem_model_arguments_iff (hparents : p.parents = .ok parents)
    (horder : Order.topological parents = .ok order) {i : Nat} :
    i ∈ (p.model parents order observations).arguments ↔
      ∃ node, (p.model parents order observations).nodes[i]? = some node ∧
        node.isHyper = false := by
  change i ∈ List.filterMap _ p.inputs.zipIdx ↔ _
  rw [List.mem_filterMap]
  constructor
  · rintro ⟨⟨⟨v, role⟩, d⟩, hmem, heq⟩
    have hd := List.mem_zipIdx_iff_getElem?.mp hmem
    simp only at hd heq
    split at heq
    · cases heq
    · rename_i hhyper
      have hpublic : v.isHyper = false := by simpa using hhyper
      refine ⟨p.node parents (declarationOf order)
        (isObservedInput (declarationOf order) observations) d v role, ?_, hpublic⟩
      rw [model_nodes_getElem? hparents horder, (declarationOf_getElem? horder).mp heq]
      simp [hd]
  · rintro ⟨node, hnode, hhyper⟩
    obtain ⟨d, v, role, hi, hd, rfl⟩ := model_node_eq hparents horder hnode
    refine ⟨((v, role), d), List.mem_zipIdx_iff_getElem?.mpr hd, ?_⟩
    have hv : v.isHyper = false := hhyper
    simp only [hv]
    exact (declarationOf_getElem? horder).mpr hi

/-- Compilation gives a well-formed model. -/
theorem wellFormed_of_compile (hp : p.Declared) {m : Model α} (h : p.compile = .ok m) :
    m.WellFormed := by
  obtain ⟨parents, order, observations, hnames, hparents, horder, _, rfl⟩ := compile_eq h
  obtain ⟨hordered, hperm⟩ := Order.topological_spec horder
  refine ⟨?_, ?_, ?_, ?_, ?_, mem_model_arguments_iff hparents horder, ?_, ?_, ?_⟩
  · intro i j node hnode hmem
    obtain ⟨d, v, role, hi, hd, rfl⟩ := model_node_eq hparents horder hnode
    obtain ⟨k, hk, hj⟩ := (node_mem_bindings_iff hp hparents horder hd).mp hmem
    exact hordered.lt_of_mem_parents hi hj hk
  · intro i j parent child hparent hchild
    obtain ⟨d, v, role, hi, hd, rfl⟩ := model_node_eq hparents horder hparent
    obtain ⟨d', v', role', hj, hd', rfl⟩ := model_node_eq hparents horder hchild
    rw [mem_node_children_iff horder]
    refine Iff.trans ?_ (node_mem_bindings_iff hp hparents horder hd').symm
    constructor
    · rintro ⟨k, hk, hkj⟩
      rw [hj] at hkj
      cases hkj
      exact ⟨d, hk, hi⟩
    · rintro ⟨k, hk, hki⟩
      rw [hi] at hki
      cases hki
      exact ⟨d', hk, hj⟩
  · intro i j parent hparent hmem
    obtain ⟨d, v, role, _, _, rfl⟩ := model_node_eq hparents horder hparent
    obtain ⟨k, _, hk⟩ := (mem_node_children_iff horder).mp hmem
    rw [size_model_nodes hparents horder]
    exact (List.getElem?_eq_some_iff.mp hk).1
  · intro i parent hparent
    obtain ⟨d, v, role, _, _, rfl⟩ := model_node_eq hparents horder hparent
    exact nodup_node_children horder
  · intro o i element node ho hsite hnode
    obtain ⟨d, v, role, hi, _, rfl⟩ := model_node_eq hparents horder hnode
    refine List.any_eq_true.mpr ⟨o, ho, ?_⟩
    simp [hsite, (declarationOf_getElem? horder).mpr hi]
  · intro i j a b ha hb hname
    obtain ⟨d, v, role, hi, hd, rfl⟩ := model_node_eq hparents horder ha
    obtain ⟨d', v', role', hj, hd', rfl⟩ := model_node_eq hparents horder hb
    cases input_unique (names_nodup hnames) hd hd' hname
    have hdeclared := (declarationOf_getElem? horder).mpr hi
    rw [(declarationOf_getElem? horder).mpr hj] at hdeclared
    exact (Option.some.inj hdeclared).symm
  · intro i node hnode
    obtain ⟨d, v, role, hi, _, rfl⟩ := model_node_eq hparents horder hnode
    exact (declarationOf_getElem? horder).mpr hi
  · intro i hi
    obtain ⟨d, hd⟩ := List.mem_iff_getElem?.mp hi
    rw [size_model_nodes hparents horder]
    exact (List.getElem?_eq_some_iff.mp ((declarationOf_getElem? horder).mp hd)).1

/-- A program compiles if it can be assembled and its transformation works on every prior draw. -/
theorem compile_of_samplePrior {m : Model α} (hassemble : p.assemble = .ok m)
    (hdraw : (m.samplePrior : Random Xoshiro _).Always fun drawn =>
      ∃ state outputs, drawn = .ok state ∧ m.evaluate state = .ok outputs) :
    p.compile = .ok m := by
  have hprobe : (probe m probeAttempts : Random Xoshiro _).Always fun answer => answer = .ok () := by
    refine Random.Always.bind hdraw fun drawn hdrawn => ?_
    obtain ⟨state, outputs, rfl, houtputs⟩ := hdrawn
    refine Random.Always.of_pure ?_
    rw [houtputs]
    rfl
  unfold compile
  rw [hassemble]
  change (((probe m probeAttempts).run (Xoshiro.ofSeed probeSeed)).1 >>= fun _ => .ok m) = .ok m
  rw [hprobe (Xoshiro.ofSeed probeSeed)]
  rfl

/-- A model whose prior draws break down does not compile. -/
theorem compile_of_breakdown {m : Model α} {b : Breakdown} (hassemble : p.assemble = .ok m)
    (hdraw : (m.samplePrior : Random Xoshiro _).Always fun drawn => drawn = .error (.breakdown b)) :
    p.compile = .error (.breakdown b) := by
  have hprobe : (probe m probeAttempts : Random Xoshiro _).Always fun answer =>
      answer = .error (.breakdown b) := by
    refine Random.Always.bind hdraw fun drawn hdrawn => ?_
    subst hdrawn
    exact Random.Always.of_pure rfl
  unfold compile
  rw [hassemble]
  change (((probe m probeAttempts).run (Xoshiro.ofSeed probeSeed)).1 >>= fun _ => .ok m) = _
  rw [hprobe (Xoshiro.ofSeed probeSeed)]
  rfl

end Program

end InfoFlow
