import InfoFlow.Proofs.Model.Access
import InfoFlow.Proofs.Model.Dependence

namespace InfoFlow

/-- A computation in two steps hands the stream on from the first to the second. -/
theorem Random.exists_of_run_bind {σ β γ : Type} {x : Random σ β} {f : β → Random σ γ} {c : γ}
    {g g'' : σ} (h : (x >>= f).run g = (c, g'')) :
    ∃ b g', x.run g = (b, g') ∧ (f b).run g' = (c, g'') :=
  ⟨_, _, rfl, h⟩

variable {α σ : Type} [Scalar α] [RandomWords σ]

namespace Model

/-- The elements of all nodes, in the order in which they are drawn. -/
def elements (m : Model α) : List (Nat × Nat) :=
  m.nodes.toList.zipIdx.flatMap fun (node, i) => (List.range node.width).map (i, ·)

/-- Elements are drawn one after the other, each from the distribution that it has given the state
`final`, and what is drawn is its value there. The stream goes from its first state to its last one. -/
inductive Draws (m : Model α) (final : State α) : List (Nat × Nat) → σ → σ → Prop where
  | nil {g : σ} : Draws m final [] g g
  | cons {i e : Nat} {rest : List (Nat × Nat)} {d : Distribution α} {sampler : Sampler α}
    {g g' g'' : σ} : m.resolve i e final = .ok d → Sampler.ofDistribution d = .ok sampler →
      (sampler.draw.run : Random σ _).run g = (.ok (final.value i e), g') →
      Draws m final rest g' g'' →
      Draws m final ((i, e) :: rest) g g''

variable {m : Model α} {p : Program α} {s t final : State α} {i : Nat} {node : Node α} {g g' g'' : σ}

theorem Draws.append {first rest : List (Nat × Nat)} (hfirst : m.Draws final first g g')
    (hrest : m.Draws final rest g' g'') : m.Draws final (first ++ rest) g g'' := by
  induction hfirst with
  | nil => exact hrest
  | cons hresolve hsampler hdraw _ ih => exact .cons hresolve hsampler hdraw (ih hrest)

omit [Scalar α] in
theorem mem_elements {e : Nat} (hi : m.nodes[i]? = some node) (he : e < node.width) :
    (i, e) ∈ m.elements := by
  refine List.mem_flatMap.mpr ⟨(node, i), List.mem_zipIdx_iff_getElem?.mpr ?_, ?_⟩
  · rwa [Array.getElem?_toList]
  · exact List.mem_map.mpr ⟨e, List.mem_range.mpr he, rfl⟩

/-- What is drawn comes from a distribution. -/
theorem Draws.exists_draw {elements : List (Nat × Nat)} (h : m.Draws final elements g g')
    {e : Nat} (hmem : (i, e) ∈ elements) : ∃ d sampler, ∃ before after : σ,
      m.resolve i e final = .ok d ∧ Sampler.ofDistribution d = .ok sampler ∧
        (sampler.draw.run : Random σ _).run before = (.ok (final.value i e), after) := by
  induction h with
  | nil => cases hmem
  | cons hresolve hsampler hdraw _ ih =>
    rcases List.mem_cons.mp hmem with heq | hmem
    · cases heq
      exact ⟨_, _, _, _, hresolve, hsampler, hdraw⟩
    · exact ih hmem

section Steps

variable {e : Nat} {rest : List Nat} {ys : List α}

theorem elementSampler_eq_ok {sampler : Sampler α} (h : elementSampler node e s = .ok sampler) :
    ∃ d, resolveNode node e s = .ok d ∧ Sampler.ofDistribution d = .ok sampler := by
  obtain ⟨d, hd, hsampler⟩ := Except.bind_eq_ok_iff.mp h
  exact ⟨d, Except.mapError_eq_ok_iff.mp hd, Except.mapError_eq_ok_iff.mp hsampler⟩

/-- All elements of a node with a distribution of its own are drawn by the one sampler. -/
theorem elementSampler_of_literal {d : Distribution α} {sampler : Sampler α}
    (hliteral : node.literal = some d) (h : Sampler.ofDistribution d = .ok sampler) :
    elementSampler node e s = .ok sampler := by
  unfold elementSampler resolveNode
  rw [hliteral]
  exact (Except.mapError_eq_ok_iff (f := Failure.map (·.of node.name node.family))).mpr h

/-- The first of some elements is drawn, and then the others. -/
theorem drawElements_cons_eq_ok
    (h : (drawElements node s (e :: rest) : Random σ _).run g = (.ok ys, g'')) :
    ∃ sampler x xs g', elementSampler node e s = .ok sampler ∧
      (sampler.draw.run : Random σ _).run g = (.ok x, g') ∧
      (drawElements node s rest : Random σ _).run g' = (.ok xs, g'') ∧ ys = x :: xs := by
  unfold drawElements at h
  split at h
  · cases h
  · rename_i sampler hsampler
    obtain ⟨answer, g', hx, h⟩ := Random.exists_of_run_bind h
    cases answer with
    | error b => cases h
    | ok x =>
      obtain ⟨drawn, _, hrest, h⟩ := Random.exists_of_run_bind h
      cases drawn with
      | error failure => cases h
      | ok xs =>
        cases h
        exact ⟨sampler, x, xs, g', hsampler, hx, hrest, rfl⟩

/-- The first of some nodes is drawn, and then the others given its values. -/
theorem drawNodes_cons_eq_ok {nodes : List (Node α)}
    (h : (drawNodes s (node :: nodes) : Random σ _).run g = (.ok final, g'')) :
    ∃ values g', (drawElements node s (List.range node.width) : Random σ _).run g =
        (.ok values, g') ∧
      (drawNodes (s.push values.toArray) nodes : Random σ _).run g' = (.ok final, g'') := by
  unfold drawNodes at h
  obtain ⟨drawn, g', hdrawn, h⟩ := Random.exists_of_run_bind h
  cases drawn with
  | error failure => cases h
  | ok values => exact ⟨values, g', hdrawn, h⟩

end Steps

/-- Elements that are drawn as the finished state has them are drawn from the distributions that it
gives them. -/
theorem draws_of_drawElements (hi : m.nodes[i]? = some node) (elements : List Nat)
    (hresolve : ∀ e, resolveNode node e s = resolveNode node e final) {xs : List α}
    (hrun : (drawElements node s elements : Random σ _).run g = (.ok xs, g'))
    (hvalues : List.Forall₂ (fun e x => final.value i e = x) elements xs) :
    m.Draws final (elements.map (i, ·)) g g' := by
  induction elements generalizing g xs with
  | nil =>
    cases hrun
    exact .nil
  | cons e rest ih =>
    obtain ⟨sampler, x, ys, next, hsampler, hx, hrest, rfl⟩ := drawElements_cons_eq_ok hrun
    obtain ⟨hvalue, hvalues⟩ := List.forall₂_cons.mp hvalues
    obtain ⟨d, hd, hof⟩ := elementSampler_eq_ok hsampler
    have hfinal := (resolve_of_node hi).trans ((hresolve e).symm.trans hd)
    exact .cons hfinal hof (hvalue ▸ hx) (ih hrest hvalues)

/-- Drawing more nodes keeps the values of those that have been drawn. -/
theorem getElem?_of_drawNodes (nodes : List (Node α))
    (hrun : (drawNodes s nodes : Random σ _).run g = (.ok final, g')) {j : Nat} (hj : j < s.size) :
    final[j]? = s[j]? := by
  induction nodes generalizing s g with
  | nil =>
    cases hrun
    rfl
  | cons node rest ih =>
    obtain ⟨values, next, _, hrest⟩ := drawNodes_cons_eq_ok hrun
    rw [ih hrest (by rw [Array.size_push]; omega), Array.getElem?_push_lt hj,
      Array.getElem?_eq_getElem hj]

theorem draws_of_drawNodes (hrep : m.Represents p) (nodes : List (Node α))
    (hnodes : m.nodes.toList.drop s.size = nodes)
    (hrun : (drawNodes s nodes : Random σ _).run g = (.ok final, g')) :
    m.Draws final ((nodes.zipIdx s.size).flatMap fun (node, i) =>
      (List.range node.width).map (i, ·)) g g' := by
  induction nodes generalizing s g with
  | nil =>
    cases hrun
    exact .nil
  | cons node rest ih =>
    have hi : m.nodes[s.size]? = some node := by
      rw [← Array.getElem?_toList, ← List.head?_drop, hnodes]
      rfl
    obtain ⟨values, next, helements, hrest⟩ := drawNodes_cons_eq_ok hrun
    have hlength : values.length = node.width := by
      have h := drawElements_length node s (List.range node.width) g values (by rw [helements])
      simpa using h
    have hfinal : final[s.size]? = some values.toArray := by
      rw [getElem?_of_drawNodes rest hrest (by simp), Array.getElem?_push_size]
    have hresolve (e : Nat) : resolveNode node e s = resolveNode node e final :=
      resolveNode_congr (fun j hj => by
        obtain ⟨_, _, hlt, _⟩ := hrep.parent hi hj
        simp only [Array.getD_eq_getD_getElem?, getElem?_of_drawNodes _ hrun hlt]) e
    have hvalues : List.Forall₂ (fun e x => final.value s.size e = x) (List.range node.width)
        values := by
      refine List.forall₂_iff_get.mpr ⟨by simp [hlength], fun e he he' => ?_⟩
      simp [State.value, Array.getD_eq_getD_getElem?, hfinal, List.getElem?_eq_getElem he']
    rw [List.zipIdx_cons, List.flatMap_cons]
    refine (draws_of_drawElements hi _ hresolve helements hvalues).append ?_
    have hdrop : m.nodes.toList.drop (s.push values.toArray).size = rest := by
      rw [Array.size_push, ← List.drop_drop, hnodes]
      rfl
    simpa using ih hdrop hrest

/-- Every element of an ancestral draw comes from the distribution that it has given the whole draw. -/
theorem draws_of_samplePrior (hrep : m.Represents p)
    (hrun : (m.samplePrior : Random σ _).run g = (.ok final, g')) :
    m.Draws final m.elements g g' :=
  draws_of_drawNodes hrep _ rfl hrun

/-- The distribution of an element is built for the family of its node, and from the weights that its
input declares. -/
theorem exists_build_of_resolve (hm : p.compile = .ok m) (hi : m.nodes[i]? = some node) {e : Nat}
    {d : Distribution α} (h : m.resolve i e s = .ok d) :
    ∃ input ∈ p.inputs, ∃ values weights, Distribution.build node.family values weights = .ok d ∧
      ∀ ws, weights = some ws → .weights ws ∈ input.1.parameters := by
  obtain ⟨parents, order, observations, _, hparents, horder, _, rfl⟩ := Program.compile_eq hm
  obtain ⟨d', v, role, _, hd', rfl⟩ := Program.model_node_eq hparents horder hi
  refine ⟨_, List.mem_of_getElem? hd', ?_⟩
  rw [resolve_of_node hi] at h
  unfold resolveNode at h
  split at h
  · rename_i found hliteral
    cases h
    obtain ⟨declared, hdeclared, hok⟩ := Option.bind_eq_some_iff.mp hliteral
    obtain ⟨built, hbuilt, rfl⟩ := Option.map_eq_some_iff.mp hdeclared
    obtain ⟨values, _, rfl⟩ := Option.map_eq_some_iff.mp hbuilt
    cases hbuild : Distribution.build v.family values (Variable.literalWeights? v.parameters) with
    | error fault =>
      rw [hbuild] at hok
      cases hok
    | ok built =>
      rw [hbuild] at hok
      cases hok
      exact ⟨values, _, hbuild, fun _ => Variable.mem_of_literalWeights?⟩
  · refine ⟨_, _, Except.mapError_eq_ok_iff.mp h, fun ws hws => ?_⟩
    obtain ⟨binding, hbinding, hfound⟩ := List.exists_of_findSome?_eq_some hws
    obtain ⟨parameter, hparameter, rfl⟩ := List.mem_map.mp (List.mem_reverse.mp hbinding)
    cases parameter with
    | value x => cases hfound
    | reference name => cases hfound
    | weights declared =>
      cases hfound
      exact hparameter

end Model

end InfoFlow
