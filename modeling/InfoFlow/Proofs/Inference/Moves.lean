import InfoFlow.Proofs.Inference.Coherence
import InfoFlow.Proofs.Model.Draws

namespace InfoFlow.Chain

variable {α σ : Type} [Scalar α] [RandomWords σ]

variable {m : Model α} {c : Chain α} {i e : Nat} {node : Node α} {x : α} {terms : Terms α}

/-- Counting divergences changes nothing but their number and the warnings. -/
theorem countDivergences_eq (m : Model α) (c : Chain α) (i : Nat)
    (candidates : List (Candidate α)) :
    ∃ divergences warnings, c.countDivergences m i candidates =
      { c with divergences := divergences, warnings := warnings } := by
  unfold countDivergences
  induction candidates generalizing c with
  | nil => exact ⟨c.divergences, c.warnings, rfl⟩
  | cons candidate candidates ih =>
    rw [List.foldl_cons]
    cases hdivergence : divergence? candidate.2 with
    | none =>
      simp only [hdivergence]
      exact ih c
    | some reason =>
      simp only [hdivergence]
      obtain ⟨divergences, warnings, h⟩ := ih (c.diverge m i reason)
      exact ⟨divergences, warnings, h⟩

section Moves

theorem divergence?_eq_none (h : divergence? (.ok terms) = none)
    (hbottom : (terms.total == -Scalar.infinity) = false) :
    Scalar.isFinite terms.total = true := by
  unfold divergence? at h
  simp only [ite_eq_right_iff, reduceCtorEq, imp_false, Bool.or_eq_true, not_or,
    Bool.not_eq_true] at h
  exact Scalar.isFinite_iff.mpr ⟨h.1, h.2, hbottom⟩

variable [LawfulScalar α]

/-- A difference is accepted only if something lies below it. -/
theorem accepts_not_isBottom (difference : α) :
    (accepts difference : Random σ Bool).Always fun isAccepted =>
      isAccepted = true → Scalar.isBottom difference = false := by
  unfold accepts
  split
  · rename_i hle
    refine Random.Always.of_pure fun _ => Bool.eq_false_iff.mpr fun hbottom => ?_
    exact LawfulScalar.not_zero_le_of_isBottom hbottom hle
  · refine Random.Always.bind_any fun u => Random.Always.of_pure fun hlt => ?_
    refine Bool.eq_false_iff.mpr fun hbottom => ?_
    exact LawfulScalar.not_lt_of_isBottom hbottom (of_decide_eq_true hlt)

/-- A move whose terms have a finite total keeps the cache coherent. -/
theorem Coherent.commit_of_total (hm : m.WellFormed) (hc : c.Coherent m)
    (hi : m.nodes[i]? = some node)
    (hterms : c.localTerms m i e (c.state.update i e x) = .ok terms)
    (hfinite : Scalar.isFinite terms.total = true) :
    (c.commit m i e (c.state.update i e x) terms).Coherent m := by
  have hown := (Scalar.isFinite_iff.mp (isFinite_of_total hfinite).1).2.2
  exact hc.commit hm hi (localTerms_spec hm hc hi hterms hown) hfinite

/-- A proposal is either refused, and then at most a divergence is counted, or it is accepted with terms
that have a finite total. -/
theorem metropolis_cases (m : Model α) (c : Chain α) (i e : Nat) (value : α) :
    (c.metropolis m i e value : Random σ _).Always fun moved =>
      (moved.1 = false ∧ (moved.2 = c ∨ ∃ reason, moved.2 = c.diverge m i reason)) ∨
        (moved.1 = true ∧ ∃ terms, c.localTerms m i e (c.state.update i e value) = .ok terms ∧
          Scalar.isFinite terms.total = true ∧
          moved.2 = c.commit m i e (c.state.update i e value) terms) := by
  unfold metropolis
  simp only
  split
  · rename_i terms hdivergence hterms
    refine Random.Always.bind (accepts_not_isBottom _) fun isAccepted haccepted => ?_
    cases isAccepted with
    | false => exact Random.Always.of_pure (.inl ⟨rfl, .inl rfl⟩)
    | true =>
      refine Random.Always.of_pure (.inr ⟨rfl, terms, hterms, ?_, rfl⟩)
      rw [hterms] at hdivergence
      refine divergence?_eq_none hdivergence (Bool.eq_false_iff.mpr fun hbottom => ?_)
      have := LawfulScalar.isBottom_sub (y := c.localTotal m i e) hbottom
      rw [haccepted rfl] at this
      cases this
  · rename_i reason _
    exact Random.Always.of_pure (.inl ⟨rfl, .inr ⟨reason, rfl⟩⟩)
  · exact Random.Always.of_pure (.inl ⟨rfl, .inl rfl⟩)

theorem metropolis_coherent (hm : m.WellFormed) (hc : c.Coherent m)
    (hi : m.nodes[i]? = some node) (value : α) :
    (c.metropolis m i e value : Random σ _).Always fun moved => moved.2.Coherent m := by
  refine (metropolis_cases m c i e value).mono fun moved hmoved => ?_
  rcases hmoved with ⟨_, hkept | ⟨reason, hdiverged⟩⟩ | ⟨_, terms, hterms, hfinite, hcommit⟩
  · rw [hkept]
    exact hc
  · rw [hdiverged]
    exact hc.diverge i reason
  · rw [hcommit]
    exact hc.commit_of_total hm hi hterms hfinite

/-- The weight that a draw below the sum of weights picks is positive. -/
theorem pick?_pos {u : α} {ws : List α} {k : Nat} (hu : ¬ u < 0) (h : pick? u ws = some k) :
    ∃ w, ws[k]? = some w ∧ 0 < w := by
  induction ws generalizing u k with
  | nil => cases h
  | cons w ws ih =>
    unfold pick? at h
    split at h
    · rename_i hlt
      cases h
      exact ⟨w, rfl, LawfulScalar.pos_of_lt hlt hu⟩
    · rename_i hnot
      obtain ⟨k', hk', rfl⟩ := Option.map_eq_some_iff.mp h
      exact ih (LawfulScalar.not_neg_sub hnot) hk'

omit [LawfulScalar α] in
theorem lastPositive_pos {ws : List α} {w : α} (hw : w ∈ ws) (hpos : 0 < w) :
    ∃ w, ws[lastPositive ws]? = some w ∧ 0 < w := by
  have hne : ws.zipIdx.filter (fun weight => decide (0 < weight.1)) ≠ [] := by
    obtain ⟨k, hk⟩ := List.mem_iff_getElem?.mp hw
    have hmem : (w, k) ∈ ws.zipIdx := List.mem_zipIdx_iff_getElem?.mpr hk
    exact List.ne_nil_of_mem (List.mem_filter.mpr ⟨hmem, by simpa using hpos⟩)
  obtain ⟨⟨last, k⟩, hlast⟩ := Option.ne_none_iff_exists'.mp (mt List.getLast?_eq_none_iff.mp hne)
  obtain ⟨hmem, hlastpos⟩ := List.mem_filter.mp (List.mem_of_getLast? hlast)
  refine ⟨last, ?_, by simpa using hlastpos⟩
  unfold lastPositive
  rw [hlast]
  exact List.mem_zipIdx_iff_getElem?.mp hmem

omit [LawfulScalar α] in
/-- The log weight of a category is the total of its terms, or else negative infinity. -/
theorem categoryWeight_eq (candidate : Except EvaluationError (Terms α)) :
    categoryWeight candidate = -Scalar.infinity ∨ ∃ terms, candidate = .ok terms ∧
      divergence? (.ok terms) = none ∧ categoryWeight candidate = terms.total := by
  cases candidate with
  | error reason => exact .inl rfl
  | ok terms =>
    cases hdivergence : divergence? (.ok terms) with
    | some reason => exact .inl (by simp [categoryWeight, hdivergence])
    | none => exact .inr ⟨terms, rfl, hdivergence, by simp [categoryWeight, hdivergence]⟩

/-- The largest log weight is that of a category that can be weighed, unless there is none. -/
theorem isFinite_largest {candidates : List (Except EvaluationError (Terms α))}
    (h : ((candidates.map categoryWeight).foldl Scalar.max (-Scalar.infinity) ==
      -Scalar.infinity) = false) :
    (candidates.map categoryWeight).foldl Scalar.max (-Scalar.infinity) ∈
        candidates.map categoryWeight ∧
      Scalar.isFinite ((candidates.map categoryWeight).foldl Scalar.max (-Scalar.infinity)) =
        true := by
  rcases Scalar.foldl_max_mem (candidates.map categoryWeight) (-Scalar.infinity) with heq | hmem
  · rw [heq, LawfulScalar.negInfinity_beq_self] at h
    cases h
  · refine ⟨hmem, ?_⟩
    obtain ⟨candidate, _, hweight⟩ := List.mem_map.mp hmem
    rw [← hweight] at h ⊢
    rcases categoryWeight_eq candidate with heq | ⟨terms, _, hdivergence, heq⟩
    · rw [heq, LawfulScalar.negInfinity_beq_self] at h
      cases h
    · rw [heq] at h ⊢
      exact divergence?_eq_none hdivergence h

theorem unit_not_neg : (Random.unit : Random σ α).Always fun u => ¬ u < 0 :=
  Random.Always.bind_any fun _ => Random.Always.of_pure (LawfulScalar.not_neg_ratio _ _)

variable [LawfulExp α]

/-- The draw of a category picks one whose weight is positive, so one that can be weighed. -/
theorem drawPosition_weight {lnWeights : List α} {largest u : α} (hmem : largest ∈ lnWeights)
    (hfinite : Scalar.isFinite largest = true) (hu : ¬ u < 0) :
    ∃ w, lnWeights[drawPosition lnWeights largest u]? = some w ∧
      (w == -Scalar.infinity) = false := by
  have hchosen : ∃ w, (lnWeights.map fun w => Scalar.exp (w - largest))[
      drawPosition lnWeights largest u]? = some w ∧ 0 < w := by
    have hweights : ∀ w ∈ lnWeights.map fun w => Scalar.exp (w - largest), ¬ w < 0 := by
      intro w hw
      obtain ⟨lnWeight, _, rfl⟩ := List.mem_map.mp hw
      exact LawfulExp.not_neg_exp _
    unfold drawPosition
    simp only
    cases hpick : pick? (u * Scalar.sum (lnWeights.map fun w => Scalar.exp (w - largest)))
        (lnWeights.map fun w => Scalar.exp (w - largest)) with
    | some k =>
      exact pick?_pos (LawfulScalar.not_neg_mul hu (Scalar.not_neg_sum hweights)) hpick
    | none =>
      refine lastPositive_pos (List.mem_map.mpr ⟨largest, hmem, rfl⟩) ?_
      exact LawfulExp.pos_exp_of_beq_zero (LawfulScalar.sub_self_beq hfinite)
  obtain ⟨weight, hweight, hpos⟩ := hchosen
  rw [List.getElem?_map, Option.map_eq_some_iff] at hweight
  obtain ⟨w, hw, rfl⟩ := hweight
  refine ⟨w, hw, Bool.eq_false_iff.mpr fun hbottom => ?_⟩
  exact LawfulExp.not_pos_exp_of_isBottom (LawfulScalar.isBottom_sub hbottom) hpos

omit [LawfulExp α] in
/-- Moving to a candidate of some weight keeps the cache coherent. -/
theorem commitCategory_coherent (hm : m.WellFormed) (hc : c.Coherent m)
    (hi : m.nodes[i]? = some node) {categories k : Nat} {w : α}
    (hw : (((c.candidates m i e categories).map Prod.snd).map categoryWeight)[k]? = some w)
    (hweighed : (w == -Scalar.infinity) = false) :
    (c.commitCategory m i e (c.candidates m i e categories)[k]?).2.Coherent m := by
  unfold commitCategory
  split
  · rename_i state terms hcandidate
    split
    · exact hc
    · rename_i hdivergence
      obtain ⟨category, _, heq⟩ := List.mem_map.mp (List.mem_of_getElem? hcandidate)
      obtain ⟨rfl, hterms⟩ := Prod.mk.inj heq
      have hnone : divergence? (.ok terms) = none := by simpa using hdivergence
      have htotal : w = terms.total := by
        simp only [List.getElem?_map, hcandidate, Option.map_some, Option.some.injEq] at hw
        rw [← hw]
        simp [categoryWeight, hnone]
      exact hc.commit_of_total hm hi hterms (divergence?_eq_none hnone (htotal ▸ hweighed))
  · exact hc

theorem drawCategory_coherent (hm : m.WellFormed) (hc : c.Coherent m)
    (hi : m.nodes[i]? = some node) (categories : Nat) :
    (c.drawCategory m i e categories : Random σ _).Always fun moved => moved.2.Coherent m := by
  obtain ⟨divergences, warnings, hcounted⟩ :=
    countDivergences_eq m c i (c.candidates m i e categories)
  have hkept : Coherent m { c with divergences := divergences, warnings := warnings } :=
    hc.of_eq rfl rfl rfl rfl
  unfold drawCategory
  simp only [hcounted]
  split
  · exact Random.Always.of_pure hkept
  · rename_i hlargest
    refine Random.Always.bind unit_not_neg fun u hu => Random.Always.of_pure ?_
    have hlnWeights :
        (c.candidates m i e categories).map (fun candidate => categoryWeight candidate.2) =
          ((c.candidates m i e categories).map Prod.snd).map categoryWeight := by
      rw [List.map_map]
      rfl
    rw [hlnWeights] at hlargest ⊢
    obtain ⟨hmem, hfinite⟩ := isFinite_largest (Bool.eq_false_iff.mpr hlargest)
    obtain ⟨w, hw, hweighed⟩ := drawPosition_weight hmem hfinite hu
    exact commitCategory_coherent hm hkept hi hw hweighed

theorem gibbs_coherent (hm : m.WellFormed) (hc : c.Coherent m) (hi : m.nodes[i]? = some node) :
    (c.gibbs m i e : Random σ _).Always fun moved => moved.2.Coherent m := by
  unfold gibbs
  split
  · exact drawCategory_coherent hm hc hi _
  · exact Random.Always.of_pure hc

/-- Whatever a node's step proposes, a move keeps the cache coherent. -/
theorem move_coherent (hm : m.WellFormed) (hc : c.Coherent m) (hi : m.nodes[i]? = some node)
    (step : Step) :
    (c.move m i e step : Random σ _).Always fun moved =>
      ∀ isAccepted d, moved = some (isAccepted, d) → d.Coherent m := by
  have hsome (x : Random σ (Bool × Chain α)) (hx : x.Always fun moved => moved.2.Coherent m) :
      (some <$> x).Always fun moved =>
        ∀ isAccepted d, moved = some (isAccepted, d) → d.Coherent m := by
    refine hx.map fun moved hmoved isAccepted d heq => ?_
    cases heq
    exact hmoved
  cases step with
  | fixed => exact Random.Always.of_pure fun _ _ h => by cases h
  | flip => exact hsome _ (metropolis_coherent hm hc hi _)
  | category => exact hsome _ (gibbs_coherent hm hc hi)
  | wholeWalk => exact Random.Always.bind_any fun _ => hsome _ (metropolis_coherent hm hc hi _)
  | walk => exact Random.Always.bind_any fun _ => hsome _ (metropolis_coherent hm hc hi _)

theorem visit_coherent (hm : m.WellFormed) (hc : c.Coherent m) (hi : m.nodes[i]? = some node)
    (isTuning : Bool) (step : Step) :
    (c.visit m isTuning i e step : Random σ _).Always fun d => d.Coherent m := by
  unfold visit
  refine Random.Always.bind (move_coherent hm hc hi step) fun moved hmoved => ?_
  match moved with
  | none => exact Random.Always.of_pure hc
  | some (isAccepted, d) => exact Random.Always.of_pure ((hmoved isAccepted d rfl).count i _ _)

omit [Scalar α] [LawfulScalar α] [LawfulExp α] in
theorem exists_node_of_mem_sites {step : Step} (h : (i, e, step) ∈ sites m) :
    ∃ node, m.nodes[i]? = some node := by
  obtain ⟨⟨node, k⟩, hnode, hsite⟩ := List.mem_flatMap.mp h
  obtain ⟨l, _, heq⟩ := List.mem_map.mp hsite
  cases heq
  exact ⟨node, by simpa using List.mem_zipIdx_iff_getElem?.mp hnode⟩

theorem sweep_coherent (hm : m.WellFormed) (hc : c.Coherent m) (isTuning : Bool) :
    (c.sweep m isTuning : Random σ _).Always fun d => d.Coherent m := by
  unfold sweep
  refine Random.Always.foldlM (hc.of_eq rfl rfl rfl rfl) fun d site hd hsite => ?_
  obtain ⟨i, e, step⟩ := site
  obtain ⟨node, hi⟩ := exists_node_of_mem_sites hsite
  exact visit_coherent hm hd hi isTuning step

end Moves

/-- What is done to a chain once it has started. -/
inductive Call where
  | sweep (isTuning : Bool)
  | tune

/-- The chain after some calls, one after the other. -/
def calls (m : Model α) (c : Chain α) (calls : List Call) : Random σ (Chain α) :=
  calls.foldlM (fun c call =>
    match call with
    | .sweep isTuning => c.sweep m isTuning
    | .tune => return c.tune) c

variable [LawfulScalar α] [LawfulExp α]

theorem Coherent.calls (hm : m.WellFormed) (hc : c.Coherent m) (calls : List Call) :
    (c.calls m calls : Random σ _).Always fun d => d.Coherent m := by
  refine Random.Always.foldlM hc fun d call hd _ => ?_
  cases call with
  | sweep isTuning => exact sweep_coherent hm hd isTuning
  | tune => exact Random.Always.of_pure hd.tune

/-- However a chain of a compiled model started, and whatever sweeps and adaptations followed, its cache
holds the log priors, the outputs and the likelihood at its state, all of them finite. -/
theorem calls_coherent {p : Program α} (hp : p.Declared) (hm : p.compile = .ok m)
    {id attempts : Nat} {s : σ} (hc : ((init m id attempts).run.run s).1 = .ok (some c))
    (calls : List Call) : (c.calls m calls : Random σ _).Always fun d => d.Coherent m :=
  Coherent.calls (Program.wellFormed_of_compile hp hm) (init_coherent m id attempts s c hc) calls

/-- A coin that is certain to show 1, because its hyper-parameter is, and that is observed to. -/
noncomputable def certainCoin : Program Exact where
  name := "certain"
  inputs := [(⟨"rate", .bernoulli, [.value (.real 1)], .scalar, true⟩, .known),
    (⟨"coin", .bernoulli, [.reference "rate"], .scalar, false⟩, .secret)]
  outputs := [⟨"side", true, 1⟩]
  transformation arguments := .ok arguments
  observations := [⟨"side", [(.eq, .real 1)], .real 0⟩]

/-- The graph of `certainCoin`, with its nodes in the order of the declaration. -/
noncomputable def certainCoinModel : Model Exact :=
  certainCoin.model [[], [0]] [0, 1] [⟨.output 0 none, [(.eq, .real 1)], .real 0, true⟩]

theorem certainCoin_declared : certainCoin.Declared := by
  have hrate := Exact.declare_bernoulli "rate" (p := 1) zero_le_one le_rfl
  have hcoin : Variable.declare (α := Exact) "coin" .bernoulli [.reference "rate"] =
      .ok ⟨"coin", .bernoulli, [.reference "rate"], .scalar, false⟩ := rfl
  intro input hinput
  simp only [certainCoin, List.mem_cons, List.not_mem_nil, or_false] at hinput
  rcases hinput with rfl | rfl
  · exact .hyper (.declare hrate)
  · exact .declare hcoin

theorem certainCoin_assemble : certainCoin.assemble = .ok certainCoinModel := by
  have hselector : Selector.parse? "side" = some ⟨"side", none⟩ := by decide +kernel
  have hsite : certainCoin.observationSite (Program.declarationOf [0, 1]) "side" =
      .ok (.output 0 none, true) := by
    unfold Program.observationSite
    rw [hselector]
    rfl
  have hobservations :
      certainCoin.observations.mapM (certainCoin.bindObservation (Program.declarationOf [0, 1])) =
        .ok [⟨.output 0 none, [(.eq, .real 1)], .real 0, true⟩] := by
    refine Except.mapM_eq_ok_iff.mpr (.cons ?_ .nil)
    unfold Program.bindObservation
    rw [hsite]
    rfl
  unfold Program.assemble
  refine Except.bind_eq_ok_iff.mpr ⟨(), rfl, ?_⟩
  refine Except.bind_eq_ok_iff.mpr ⟨[[], [0]], rfl, ?_⟩
  refine Except.bind_eq_ok_iff.mpr ⟨[0, 1], rfl, ?_⟩
  refine Except.bind_eq_ok_iff.mpr ⟨(), Program.checkLiterals_eq_ok certainCoin_declared _, ?_⟩
  exact Except.bind_eq_ok_iff.mpr ⟨_, hobservations, rfl⟩

/-- The only state with a finite log density. -/
noncomputable def certainCoinState : State Exact := #[#[.real 1], #[.real 1]]

theorem certainCoin_evaluate :
    certainCoinModel.evaluate certainCoinState = .ok [[.real 1]] := rfl

/-- Both nodes are certain to be 1, once the first one is. -/
theorem certainCoin_nodes : ∃ rate coin, certainCoinModel.nodes.toList = [rate, coin] ∧
    (rate.width = 1 ∧ ∀ s, Model.resolveNode rate 0 s = .ok (.bernoulli (.real 1))) ∧
    coin.width = 1 ∧ ∀ s, s.getD 0 #[] = #[.real 1] →
      Model.resolveNode coin 0 s = .ok (.bernoulli (.real 1)) := by
  refine ⟨_, _, rfl, ⟨rfl, fun s => ?_⟩, rfl, fun s hs => ?_⟩
  · have hliteral := congrArg (·.bind (·.toOption))
      (Exact.distribution?_bernoulli "rate" true (p := 1) zero_le_one le_rfl)
    unfold Model.resolveNode
    simp only [Program.node, certainCoin, hliteral]
    rfl
  · exact Exact.resolveNode_reference rfl rfl hs (Exact.build_bernoulli zero_le_one le_rfl)

theorem certainCoin_samplePrior :
    (certainCoinModel.samplePrior : Random σ _).Always fun drawn => drawn = .ok certainCoinState := by
  obtain ⟨rate, coin, hnodes, ⟨hwidth, hrate⟩, hwidth', hcoin⟩ := certainCoin_nodes
  have hcertain {node : Node Exact} {s : State Exact}
      (h : Model.resolveNode node 0 s = .ok (.bernoulli (.real 1))) :
      (Model.drawElements node s [0] : Random σ _).Always fun drawn =>
        ∃ x, drawn = .ok [x] ∧ x = .real 1 := by
    refine (Exact.drawElements_bernoulli h).mono ?_
    rintro drawn ⟨x, rfl, _, hx⟩
    exact ⟨x, rfl, hx rfl⟩
  unfold Model.samplePrior
  rw [hnodes]
  refine Exact.drawNodes_cons hwidth (hcertain (hrate _)) ?_
  rintro _ rfl
  refine Exact.drawNodes_cons hwidth' (hcertain (hcoin _ rfl)) ?_
  rintro _ rfl
  exact Random.Always.of_pure rfl

theorem certainCoin_compile : certainCoin.compile = .ok certainCoinModel := by
  refine Program.compile_of_samplePrior certainCoin_assemble (certainCoin_samplePrior.mono ?_)
  rintro drawn rfl
  exact ⟨_, _, rfl, certainCoin_evaluate⟩

theorem certainCoin_lnPriorElement {i : Nat} (hi : i < 2) :
    certainCoinModel.lnPriorElement i 0 certainCoinState = .real 0 := by
  have hlog : Scalar.log (Exact.real 1) = .real 0 := by
    change Exact.log (Real.exp 1) (.real 1) = .real 0
    simp [Exact.log, Exact.extend]
  obtain ⟨rate, coin, hnodes, ⟨_, hrate⟩, _, hcoin⟩ := certainCoin_nodes
  have hresolve : certainCoinModel.resolve i 0 certainCoinState = .ok (.bernoulli (.real 1)) := by
    unfold Model.resolve
    rw [← Array.getElem?_toList, hnodes]
    match i with
    | 0 => exact hrate _
    | 1 => exact hcoin _ rfl
  have hvalue : certainCoinState.value i 0 = .real 1 := by
    match i with
    | 0 => rfl
    | 1 => rfl
  unfold Model.lnPriorElement
  rw [hresolve, hvalue]
  exact (Exact.lnDensity_bernoulli 1).trans hlog

theorem certainCoin_lnLikelihood :
    certainCoinModel.lnLikelihood certainCoinState [[.real 1]] = .real 0 := by
  have hterm : constraintLnLikelihood (.real 1) .eq (.real 1) (.real 0) true = Exact.real 0 := by
    simp [constraintLnLikelihood, Scalar.isNaN, Scalar.isWithin, Exact.zero_eq]
  change (0 : Exact) + constraintLnLikelihood (.real 1) .eq (.real 1) (.real 0) true = _
  rw [hterm, Exact.zero_eq, Exact.real_add, add_zero]

/-- A chain of the certain coin starts with the first draw. -/
theorem certainCoin_init (id attempts : Nat) :
    ((init certainCoinModel id (attempts + 1)).run : Random σ _).Always fun started =>
      ∃ c, started = .ok (some c) ∧ c.state = certainCoinState := by
  have hpriors : ∀ row ∈ (allLnPrior certainCoinModel certainCoinState).toList,
      row.all Scalar.isFinite = true := by
    intro row hrow
    have hrows : (allLnPrior certainCoinModel certainCoinState).toList =
        [[certainCoinModel.lnPriorElement 0 0 certainCoinState],
          [certainCoinModel.lnPriorElement 1 0 certainCoinState]] := rfl
    rw [hrows, certainCoin_lnPriorElement (by decide), certainCoin_lnPriorElement (by decide)] at hrow
    simp only [List.mem_cons, List.not_mem_nil, or_false, or_self] at hrow
    simp [hrow, Exact.isFinite_real]
  obtain ⟨c, hc, hstate⟩ :
      ∃ c, start? certainCoinModel id certainCoinState = some c ∧ c.state = certainCoinState :=
    exists_start? certainCoin_evaluate (certainCoin_lnLikelihood ▸ Exact.isFinite_real 0) hpriors
  unfold init
  rw [Drawing.run_lift_bind]
  refine Random.Always.bind certainCoin_samplePrior fun drawn hdrawn => ?_
  subst hdrawn
  simp only [hc]
  exact Random.Always.of_pure ⟨c, rfl, hstate⟩

/-- The cache of a chain of the certain coin stays coherent. -/
theorem certainCoin_calls_coherent :
    certainCoin.Declared ∧ certainCoin.compile = .ok certainCoinModel ∧
      ∃ c, ((init certainCoinModel 0 1).run.run (Xoshiro.ofSeed 0)).1 = .ok (some c) ∧
        (c.calls certainCoinModel [.sweep true, .tune, .sweep false] : Random Xoshiro _).Always
          fun d => d.Coherent certainCoinModel := by
  obtain ⟨c, hc, _⟩ := certainCoin_init 0 0 (Xoshiro.ofSeed 0)
  exact ⟨certainCoin_declared, certainCoin_compile, c, hc,
    calls_coherent certainCoin_declared certainCoin_compile hc _⟩

end InfoFlow.Chain
