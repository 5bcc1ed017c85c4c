import InfoFlow.Inference.Chain
import InfoFlow.Proofs.Model.Compile
import InfoFlow.Proofs.Model.Dependence
import InfoFlow.Proofs.Scalar.Laws
import InfoFlow.Proofs.Updates

namespace InfoFlow

variable {α σ : Type} [Scalar α] [RandomWords σ]

/-- The cached terms are those at the state of the chain, and all log densities are finite. -/
structure Chain.Coherent (m : Model α) (c : Chain α) : Prop where
  fits : m.Fits c.state
  lnPrior_eq {i : Nat} {node : Node α} : m.nodes[i]? = some node →
    c.lnPrior[i]? = some ((List.range node.width).map fun e => m.lnPriorElement i e c.state)
  outputs_eq : m.evaluate c.state = .ok c.outputs
  lnLikelihood_eq : c.lnLikelihood = m.lnLikelihood c.state c.outputs
  lnPrior_finite {i e : Nat} {node : Node α} : m.nodes[i]? = some node → e < node.width →
    Scalar.isFinite (m.lnPriorElement i e c.state) = true
  lnLikelihood_finite : Scalar.isFinite c.lnLikelihood = true

/-- The terms of a move of element `e` of node `i` are those at the state it moves to, where the
outputs are kept if the terms have none. -/
structure Terms.At (m : Model α) (c : Chain α) (i e : Nat) (state : State α) (t : Terms α) :
    Prop where
  own_eq : t.own = m.lnPriorElement i e state
  children_eq : t.children = (Chain.children m i).map fun child =>
    m.lnPriorElements child (state.getD child #[]).size state
  outputs_eq : m.evaluate state = .ok (t.outputs.getD c.outputs)
  lnLikelihood_eq : t.lnLikelihood = m.lnLikelihood state (t.outputs.getD c.outputs)

namespace Chain

variable {m : Model α} {c : Chain α} {i e : Nat} {node : Node α} {x : α} {terms : Terms α}

omit [Scalar α] in
theorem children_eq (hi : m.nodes[i]? = some node) : children m i = node.children := by
  unfold children
  rw [hi]
  rfl

omit [Scalar α] in
/-- A node that is no child of another one is not bound to it. -/
theorem not_mem_bindings (hm : m.WellFormed) (hi : m.nodes[i]? = some node) {k : Nat} {other : Node α}
    (hk : m.nodes[k]? = some other) (hchild : k ∉ children m i) : .node i ∉ other.bindings := by
  rw [← hm.mem_children_iff hi hk, ← children_eq hi]
  exact hchild

theorem allLnPrior_getElem? {state : State α} (hfits : m.Fits state)
    (hi : m.nodes[i]? = some node) :
    (allLnPrior m state)[i]? = some (m.lnPriorElements i node.width state) := by
  have hsize := hfits.getElem?_eq i
  rw [hi, Option.map_some, Option.map_eq_some_iff] at hsize
  obtain ⟨values, hvalues, hwidth⟩ := hsize
  simp [allLnPrior, hvalues, hwidth]

/-- A chain starts where the model can be evaluated and all log densities are finite, with nothing counted
and scales of 1. -/
theorem start?_eq_some_iff {id : Nat} {state : State α} : start? m id state = some c ↔
    ∃ outputs, m.evaluate state = .ok outputs ∧
      Scalar.isFinite (m.lnLikelihood state outputs) = true ∧
      (∀ row ∈ (allLnPrior m state).toList, ∀ y ∈ row, Scalar.isFinite y = true) ∧
      c = ⟨id, 0, state, allLnPrior m state, outputs, m.lnLikelihood state outputs,
        Array.replicate state.size 1, Array.replicate state.size .zero, .zero, 0, []⟩ := by
  unfold start?
  cases m.evaluate state with
  | error reason => exact iff_of_false nofun nofun
  | ok outputs =>
    simp only [Except.toOption, Option.bind_eq_bind, Option.bind_some, Option.ite_none_right_eq_some,
      Option.some.injEq, Bool.and_eq_true, List.all_eq_true, Except.ok.injEq, exists_eq_left', and_assoc]
    exact and_congr_right fun _ => and_congr_right fun _ => eq_comm

/-- A chain starts with the terms at its first state. -/
theorem start?_coherent {id : Nat} {state : State α} (hfits : m.Fits state)
    (h : start? m id state = some c) : c.Coherent m := by
  obtain ⟨outputs, hevaluate, hlikelihood, hprior, rfl⟩ := start?_eq_some_iff.mp h
  refine ⟨hfits, allLnPrior_getElem? hfits, hevaluate, rfl, fun {i e node} hi he => ?_, hlikelihood⟩
  have hrow := allLnPrior_getElem? hfits hi
  have hmem : m.lnPriorElements i node.width state ∈ (allLnPrior m state).toList := by
    rw [← Array.getElem?_toList] at hrow
    exact List.mem_of_getElem? hrow
  exact hprior _ hmem _ (List.mem_map.mpr ⟨e, List.mem_range.mpr he, rfl⟩)

theorem exists_start? {id : Nat} {state : State α} {outputs : List (List α)}
    (houtputs : m.evaluate state = .ok outputs)
    (hlikelihood : Scalar.isFinite (m.lnLikelihood state outputs) = true)
    (hpriors : ∀ row ∈ (allLnPrior m state).toList, row.all Scalar.isFinite = true) :
    ∃ c, start? m id state = some c ∧ c.state = state :=
  ⟨_, start?_eq_some_iff.mpr ⟨outputs, houtputs, hlikelihood,
    fun row hrow => List.all_eq_true.mp (hpriors row hrow), rfl⟩, rfl⟩

theorem state_of_start? {id : Nat} {state : State α} (h : start? m id state = some c) :
    c.state = state := by
  obtain ⟨_, _, _, _, rfl⟩ := start?_eq_some_iff.mp h
  rfl

/-- A chain starts at a prior draw. -/
theorem init_start (m : Model α) (id attempts : Nat) :
    ((init m id attempts).run : Random σ _).Always fun started =>
      ∀ c, started = .ok (some c) → ∃ state, m.IsPriorDraw σ state ∧ start? m id state = some c := by
  induction attempts with
  | zero => exact Random.Always.of_pure fun c hc => by cases hc
  | succ attempts ih =>
    unfold init
    rw [Drawing.run_lift_bind]
    refine Random.Always.bind (Model.samplePrior_isPriorDraw m) fun drawn hdrawn => ?_
    rcases drawn with (e | b) | state
    · exact ih
    · exact Random.Always.of_pure nofun
    · dsimp only
      cases hstart : start? m id state with
      | none => exact ih
      | some chain =>
        refine Random.Always.of_pure fun c hc => ?_
        cases hc
        exact ⟨state, hdrawn state rfl, hstart⟩

/-- A chain comes to a start or runs out of attempts where prior draws succeed. -/
theorem exists_init (h : (m.samplePrior : Random σ _).Always fun drawn => ∃ s, drawn = .ok s)
    (id attempts : Nat) :
    ((init m id attempts).run : Random σ _).Always fun started => ∃ chain?, started = .ok chain? := by
  induction attempts with
  | zero => exact Random.Always.of_pure ⟨none, rfl⟩
  | succ attempts ih =>
    unfold init
    rw [Drawing.run_lift_bind]
    refine Random.Always.bind h fun drawn hdrawn => ?_
    obtain ⟨s, rfl⟩ := hdrawn
    dsimp only
    cases start? m id s with
    | none => exact ih
    | some chain => exact Random.Always.of_pure ⟨some chain, rfl⟩

theorem init_coherent (m : Model α) (id attempts : Nat) :
    ((init m id attempts).run : Random σ _).Always fun started =>
      ∀ c, started = .ok (some c) → c.Coherent m := by
  refine (init_start m id attempts).mono fun started h c hc => ?_
  obtain ⟨state, hstate, hstart⟩ := h c hc
  exact start?_coherent hstate.fits hstart

omit [Scalar α] in
/-- Nothing observes the node of an element that is not marked as observed. -/
theorem site_ne_of_not_isObserved (hm : m.WellFormed) (hi : m.nodes[i]? = some node)
    (hobserved : node.isObserved = false) :
    ∀ o ∈ m.observations, ∀ element, o.site ≠ .node i element := by
  intro o ho element hsite
  have := hm.isObserved_of_site ho hsite hi
  rw [hobserved] at this
  cases this

/-- What a move computes and what it keeps are together the terms at the new state, unless the element
itself is impossible there. -/
theorem localTerms_spec (hm : m.WellFormed) (hc : c.Coherent m) (hi : m.nodes[i]? = some node)
    (h : c.localTerms m i e (c.state.update i e x) = .ok terms)
    (hown : (terms.own == -Scalar.infinity) = false) :
    terms.At m c i e (c.state.update i e x) := by
  unfold localTerms at h
  simp only [hi, Option.map_some, Option.getD_some] at h
  split at h
  · rename_i himpossible
    cases h
    rw [himpossible] at hown
    cases hown
  · split at h
    · obtain ⟨outputs, houtputs, h⟩ := Except.bind_eq_ok_iff.mp h
      cases h
      cases hevaluate : m.evaluate (c.state.update i e x) with
      | error reason => simp [hevaluate, Functor.map, Except.map] at houtputs
      | ok found =>
        simp only [hevaluate, Functor.map, Except.map, Except.ok.injEq] at houtputs
        cases houtputs
        exact ⟨rfl, rfl, hevaluate, rfl⟩
    · rename_i hargument
      cases h
      have hnone : i ∉ m.arguments := by simpa using hargument
      refine ⟨rfl, rfl, (Model.evaluate_update hnone).trans hc.outputs_eq, ?_⟩
      simp only [Option.isSome_none, Bool.false_or, Option.getD_none]
      split
      · rfl
      · rename_i hobserved
        rw [Model.lnLikelihood_update
          (site_ne_of_not_isObserved hm hi (Bool.not_eq_true _ ▸ hobserved))]
        exact hc.lnLikelihood_eq

/-- Where the terms have a finite total, each of them is finite. -/
theorem isFinite_of_total [LawfulScalar α] (h : Scalar.isFinite terms.total = true) :
    Scalar.isFinite terms.own = true ∧
      (∀ row ∈ terms.children, ∀ y ∈ row, Scalar.isFinite y = true) ∧
      Scalar.isFinite terms.lnLikelihood = true := by
  obtain ⟨hpriors, hlikelihood⟩ := LawfulScalar.isFinite_of_add h
  obtain ⟨hown, hchildren⟩ := LawfulScalar.isFinite_of_add hpriors
  refine ⟨hown, fun row hrow y hy => ?_, hlikelihood⟩
  exact Scalar.isFinite_of_mem_sum hchildren (List.mem_flatten.mpr ⟨row, hrow, hy⟩)

/-- The cached rows after a move: those of the children are new, and so is one number in the row of the
moved node. -/
theorem commit_lnPrior_getElem? (hm : m.WellFormed) (hc : c.Coherent m)
    (hi : m.nodes[i]? = some node) (hterms : terms.At m c i e (c.state.update i e x)) {k : Nat}
    {other : Node α} (hk : m.nodes[k]? = some other) :
    (c.commit m i e (c.state.update i e x) terms).lnPrior[k]? =
      some (m.lnPriorElements k other.width (c.state.update i e x)) := by
  have hrow : c.lnPrior[k]? = some (m.lnPriorElements k other.width c.state) := hc.lnPrior_eq hk
  have hown : (c.lnPrior.modify i (·.set e terms.own))[k]? =
      if i = k then some ((m.lnPriorElements k other.width c.state).set e terms.own)
      else some (m.lnPriorElements k other.width c.state) := by
    rw [Array.getElem?_modify, hrow]
    split <;> rfl
  simp only [commit]
  rw [hterms.children_eq]
  refine (Updates.getElem?_run_zip_map _ _ _ _).trans ?_
  rw [hown]
  by_cases hchild : k ∈ children m i
  · have hwidth := (hc.fits.update (i := i) (e := e) (x := x)).size_getD hk
    rw [if_pos hchild, hwidth]
    split <;> rfl
  · have hfree := not_mem_bindings hm hi hk hchild
    rw [if_neg hchild]
    split
    · rename_i hik
      subst hik
      rw [hterms.own_eq]
      refine congrArg some (List.ext_getElem? fun l => ?_)
      simp only [Model.lnPriorElements, List.getElem?_set, List.length_map, List.length_range,
        List.getElem?_map]
      by_cases hl : e = l
      · subst hl
        by_cases hlt : e < other.width
        · simp [hlt]
        · simp [hlt]
      · by_cases hlt : l < other.width
        · simp [hl, hlt, Model.lnPriorElement_update hk hfree (.inr (Ne.symm hl))]
        · simp [hl, hlt]
    · rename_i hik
      rw [Model.lnPriorElements_update hk hfree (Ne.symm hik)]

/-- Moving keeps the cache coherent when the terms are those at the new state and finite. -/
theorem Coherent.commit [LawfulScalar α] (hm : m.WellFormed) (hc : c.Coherent m)
    (hi : m.nodes[i]? = some node) (hterms : terms.At m c i e (c.state.update i e x))
    (hfinite : Scalar.isFinite terms.total = true) :
    (c.commit m i e (c.state.update i e x) terms).Coherent m := by
  obtain ⟨hown, hchildren, hlikelihood⟩ := isFinite_of_total hfinite
  refine ⟨hc.fits.update, commit_lnPrior_getElem? hm hc hi hterms, hterms.outputs_eq,
    hterms.lnLikelihood_eq, fun {k l other} hk hl => ?_, hlikelihood⟩
  change Scalar.isFinite (m.lnPriorElement k l (c.state.update i e x)) = true
  by_cases hchild : k ∈ children m i
  · have hwidth := (hc.fits.update (i := i) (e := e) (x := x)).size_getD hk
    refine hchildren (m.lnPriorElements k other.width (c.state.update i e x)) ?_ _ ?_
    · rw [hterms.children_eq]
      exact List.mem_map.mpr ⟨k, hchild, by rw [hwidth]⟩
    · exact List.mem_map.mpr ⟨l, List.mem_range.mpr hl, rfl⟩
  · have hfree := not_mem_bindings hm hi hk hchild
    by_cases hsame : k = i ∧ l = e
    · obtain ⟨rfl, rfl⟩ := hsame
      rw [← hterms.own_eq]
      exact hown
    · rw [Model.lnPriorElement_update hk hfree (by omega)]
      exact hc.lnPrior_finite hk hl

/-- Nothing but the state and the cached terms matters. -/
theorem Coherent.of_eq {d : Chain α} (hc : c.Coherent m) (hstate : d.state = c.state)
    (hprior : d.lnPrior = c.lnPrior) (houtputs : d.outputs = c.outputs)
    (hlikelihood : d.lnLikelihood = c.lnLikelihood) : d.Coherent m := by
  refine ⟨?_, ?_, ?_, ?_, ?_, ?_⟩
  · rw [hstate]
    exact hc.fits
  · rw [hstate, hprior]
    exact hc.lnPrior_eq
  · rw [hstate, houtputs]
    exact hc.outputs_eq
  · rw [hstate, houtputs, hlikelihood]
    exact hc.lnLikelihood_eq
  · rw [hstate]
    exact hc.lnPrior_finite
  · rw [hlikelihood]
    exact hc.lnLikelihood_finite

theorem Coherent.diverge (hc : c.Coherent m) (k : Nat) (reason : String) :
    (c.diverge m k reason).Coherent m :=
  hc.of_eq rfl rfl rfl rfl

theorem Coherent.count (hc : c.Coherent m) (k : Nat) (isTuning isAccepted : Bool) :
    (c.count k isTuning isAccepted).Coherent m :=
  hc.of_eq rfl rfl rfl rfl

theorem Coherent.tune (hc : c.Coherent m) : c.tune.Coherent m :=
  hc.of_eq rfl rfl rfl rfl

end Chain

end InfoFlow
