import InfoFlow.Proofs.Inference.Moves
import InfoFlow.Proofs.Inference.Rows

namespace InfoFlow

variable {α : Type} [Scalar α]

/-- Whether an exact constraint holds for a value; equalities hold up to `1e-9`. -/
def Relation.Satisfied (relation : Relation) (x bound : α) : Prop :=
  if relation = .eq then Scalar.isWithin 1e-9 x bound = true else relation.holds x bound = true

section Likelihood

variable [LawfulScalar α]

/-- An exact constraint that is not satisfied makes the likelihood zero. -/
theorem satisfied_of_constraintLnLikelihood {x bound precision : α} {relation : Relation}
    {isDiscrete : Bool} (hexact : (isDiscrete || precision == 0) = true)
    (h : Scalar.isFinite (constraintLnLikelihood x relation bound precision isDiscrete) = true) :
    relation.Satisfied x bound := by
  have himpossible : ¬ Scalar.isFinite (-Scalar.infinity : α) = true := by
    rw [Scalar.isFinite_negInfinity]
    exact Bool.false_ne_true
  unfold constraintLnLikelihood at h
  unfold Relation.Satisfied
  simp only [hexact, if_true] at h
  split at h
  · exact absurd h himpossible
  · split at h
    · rename_i heq
      rw [if_pos heq]
      split at h
      · rename_i hwithin
        exact hwithin
      · exact absurd h himpossible
    · rename_i hne
      rw [if_neg hne]
      split at h
      · rename_i hholds
        exact hholds
      · exact absurd h himpossible

/-- A finite likelihood satisfies every exact constraint of every observation. -/
theorem Model.satisfied_of_lnLikelihood {m : Model α} {state : State α} {outputs : List (List α)}
    (h : Scalar.isFinite (m.lnLikelihood state outputs) = true) {o : SiteObservation α}
    (ho : o ∈ m.observations) (hexact : (o.isDiscrete || o.precision == 0) = true) {x : α}
    (hx : x ∈ siteValues o.site state outputs) {relation : Relation} {bound : α}
    (hconstraint : (relation, bound) ∈ o.constraints) : relation.Satisfied x bound := by
  have hterm : constraintLnLikelihood x relation bound o.precision o.isDiscrete ∈
      m.observations.flatMap fun o => observationTerms o state outputs := by
    refine List.mem_flatMap.mpr ⟨o, ho, List.mem_flatMap.mpr ⟨x, hx, ?_⟩⟩
    exact List.mem_map.mpr ⟨(relation, bound), hconstraint, rfl⟩
  exact satisfied_of_constraintLnLikelihood hexact (Scalar.isFinite_of_mem_sum h hterm)

end Likelihood

namespace Model

/-- Outputs at a state have the number and the widths that were declared. -/
theorem evaluate_widths {m : Model α} {state : State α} {outputs : List (List α)}
    (h : m.evaluate state = .ok outputs) :
    outputs.map List.length = m.outputs.map Output.width := by
  unfold evaluate at h
  split at h
  · cases h
  · split at h
    · cases h
    · rename_i values _ hcount
      have hcount' : values.length = m.outputs.length := not_not.mp hcount
      have hall := Except.mapM_eq_ok_iff.mp h
      have hwidths : (m.outputs.zip values).map (fun declared => declared.1.width) =
          outputs.map List.length := by
        refine List.forall₂_eq_eq_eq ▸ List.forall₂_map_left_iff.mpr
          (List.forall₂_map_right_iff.mpr (hall.imp fun declared found hfound => ?_))
        obtain ⟨output, value⟩ := declared
        simp only [checkOutput] at hfound
        split at hfound
        · cases hfound
        · rename_i hwidth
          cases hfound
          exact (not_not.mp hwidth).symm
      have hfst := List.map_fst_zip (Nat.le_of_eq hcount'.symm)
      calc outputs.map List.length
          = (m.outputs.zip values).map (fun declared => declared.1.width) := hwidths.symm
        _ = ((m.outputs.zip values).map Prod.fst).map Output.width := (List.map_map ..).symm
        _ = m.outputs.map Output.width := by rw [hfst]

end Model

variable {σ : Type} [RandomWords σ] {m : Model α}

/-- Some chain with a coherent cache has the values and outputs of a draw. -/
def Draw.IsCoherent (m : Model α) (draw : Draw α) : Prop :=
  ∃ c : Chain α, c.Coherent m ∧ draw = ⟨c.state, c.outputs⟩

/-- A Markov chain that succeeds has started, and reports what the iterations that it is allowed leave. -/
theorem markovChain_always {S : Chain α → Prop} {D : Chain α × List (Draw α) → Prop}
    {P : ChainRun α → Prop} {config : InferenceConfig} {allowance : Option Nat} {chain : Nat}
    (hinit : ((Chain.init m chain config.maxInitAttempts.toNat).run : Random σ _).Always
      fun started => ∀ c, started = .ok (some c) → S c)
    (hrun : ∀ c, S c → (c.run m config.tune.toNat (allowed allowance config.iterations.toNat) 0 [] :
      Random σ _).Always D)
    (hreport : ∀ last draws, D (last, draws) → P ⟨draws.reverse, last.moves.rate,
      last.divergences, last.warnings,
      allowed allowance config.iterations.toNat < config.iterations.toNat⟩) :
    (markovChain m config allowance chain : Random σ _).Always fun answer =>
      ∀ run, answer = .ok run → P run := by
  unfold markovChain
  refine Random.Always.bind hinit fun started hstarted => ?_
  rcases started with b | (_ | c)
  · exact Random.Always.of_pure nofun
  · exact Random.Always.of_pure nofun
  · refine Random.Always.bind (hrun c (hstarted c rfl)) fun result hresult => ?_
    refine Random.Always.of_pure fun run hanswer => ?_
    cases hanswer
    exact hreport _ _ hresult

section Runs

variable [LawfulScalar α] [LawfulExp α]

theorem Chain.iterate_coherent {c : Chain α} {draws : List (Draw α)} (hm : m.WellFormed)
    (hc : c.Coherent m) (hdraws : ∀ draw ∈ draws, draw.IsCoherent m) (tuning iteration : Nat) :
    (c.iterate m tuning iteration draws : Random σ _).Always fun next =>
      next.1.Coherent m ∧ ∀ draw ∈ next.2, draw.IsCoherent m := by
  unfold iterate
  refine Random.Always.bind (sweep_coherent hm hc _) fun d hd => ?_
  split
  · refine Random.Always.of_pure ⟨?_, hdraws⟩
    split
    · exact hd.tune
    · exact hd
  · refine Random.Always.of_pure ⟨hd, fun draw hdraw => ?_⟩
    rcases List.mem_cons.mp hdraw with rfl | hdraw
    · exact ⟨d, hd, rfl⟩
    · exact hdraws draw hdraw

/-- Every draw that a chain records is the state of a chain with a coherent cache. -/
theorem Chain.run_coherent {c : Chain α} {draws : List (Draw α)} (hm : m.WellFormed)
    (hc : c.Coherent m) (hdraws : ∀ draw ∈ draws, draw.IsCoherent m) (tuning n iteration : Nat) :
    (c.run m tuning n iteration draws : Random σ _).Always fun result =>
      ∀ draw ∈ result.2, draw.IsCoherent m := by
  induction n generalizing c draws iteration with
  | zero => exact Random.Always.of_pure hdraws
  | succ n ih =>
    unfold run
    refine Random.Always.bind (iterate_coherent hm hc hdraws tuning iteration) fun next hnext => ?_
    exact ih hnext.1 hnext.2 (iteration + 1)

theorem markovChain_coherent (hm : m.WellFormed) (config : InferenceConfig)
    (allowance : Option Nat) (chain : Nat) :
    (markovChain m config allowance chain : Random σ _).Always fun result =>
      ∀ run, result = .ok run → ∀ draw ∈ run.draws, draw.IsCoherent m :=
  markovChain_always (Chain.init_coherent m chain _)
    (fun _ hc => Chain.run_coherent hm hc (by simp) _ _ 0)
    fun _ _ hdraws draw hdraw => hdraws draw (List.mem_reverse.mp hdraw)

/-- At every row of every chain of a posterior trace, however many iterations a clock allowed, all exact
constraints hold, and the log priors of all elements given their parents are finite. -/
theorem inferWithin_rows_satisfied {p : Program α} (hp : p.Declared) (hm : p.compile = .ok m)
    (hconditioned : m.isConditioned = true) {config : InferenceConfig}
    (hstrategy : config.strategy ≠ .prior) {stream : Nat → σ} {allowance : Nat → Option Nat}
    {t : Trace α} (ht : inferWithin m config stream allowance = .ok t) {k r : Nat}
    {matrices : List (Matrix α)} (hk : t.chains[k]? = some matrices) (hr : r < t.draws.getD k 0) :
    (∀ o ∈ m.observations, (o.isDiscrete || o.precision == 0) = true →
      ∀ x ∈ Model.siteValues o.site (m.rowState matrices r) (m.rowOutputs matrices r),
        ∀ constraint ∈ o.constraints, constraint.1.Satisfied x constraint.2) ∧
    ∀ i node, m.nodes[i]? = some node → ∀ e < node.width,
      Scalar.isFinite (m.lnPriorElement i e (m.rowState matrices r)) = true := by
  have hwf := Program.wellFormed_of_compile hp hm
  obtain ⟨_, _, h⟩ := Except.bind_eq_ok_iff.mp ht
  obtain ⟨runs, hruns, h⟩ := Except.bind_eq_ok_iff.mp h
  cases h
  have hposterior : m.drawsPrior config.strategy = false := by
    cases hs : config.strategy with
    | auto => simp [Model.drawsPrior, hconditioned]
    | posterior => rfl
    | prior => exact absurd hs hstrategy
  have hchains : (runs.map fun run => m.recordedMatrices run.draws)[k]? = some matrices := hk
  rw [List.getElem?_map, Option.map_eq_some_iff] at hchains
  obtain ⟨run, hrun, rfl⟩ := hchains
  have hdraws : ∀ draw ∈ run.draws, draw.IsCoherent m := by
    obtain ⟨hlt, hget⟩ := List.getElem?_eq_some_iff.mp hrun
    have hall := Except.mapM_eq_ok_iff.mp hruns
    have hanswer := hall.get (hall.length_eq ▸ hlt) hlt
    simp only [List.get_eq_getElem, List.getElem_range, hget] at hanswer
    unfold runChain at hanswer
    rw [hposterior] at hanswer
    exact markovChain_coherent hwf config (allowance k) k (stream k) run hanswer
  have hlt : r < run.draws.length := Trace.lt_length_of_lt_draws hrun hr
  have hdraw : run.draws[r]? = some run.draws[r] := List.getElem?_eq_getElem hlt
  obtain ⟨c, hc, heq⟩ := hdraws _ (List.getElem_mem hlt)
  rw [heq] at hdraw
  rw [Model.rowState_recordedMatrices hwf hc.fits hdraw,
    Model.rowOutputs_recordedMatrices hwf (Model.evaluate_widths hc.outputs_eq) hdraw]
  refine ⟨fun o ho hexact x hx constraint hconstraint => ?_, fun i node hi e he => ?_⟩
  · exact Model.satisfied_of_lnLikelihood (hc.lnLikelihood_eq ▸ hc.lnLikelihood_finite) ho hexact hx
      hconstraint
  · exact hc.lnPrior_finite hi he

end Runs

/-- Of the iterations of a chain, those that are not for tuning record a draw. -/
theorem Chain.run_length {c : Chain α} {draws : List (Draw α)} (tuning n iteration : Nat) :
    (c.run m tuning n iteration draws : Random σ _).Always fun result =>
      result.2.length = draws.length + (iteration + n - max tuning iteration) := by
  induction n generalizing c draws iteration with
  | zero =>
    refine Random.Always.of_pure ?_
    have hnone : iteration + 0 - max tuning iteration = 0 := by omega
    rw [hnone]
    rfl
  | succ n ih =>
    have hiterate : (c.iterate m tuning iteration draws : Random σ _).Always fun next =>
        next.2.length = draws.length + if iteration < tuning then 0 else 1 := by
      unfold iterate
      refine Random.Always.bind_any fun d => ?_
      by_cases htuning : iteration < tuning
      · simp only [htuning, if_true]
        exact Random.Always.of_pure rfl
      · simp only [htuning, if_false]
        exact Random.Always.of_pure rfl
    unfold run
    refine Random.Always.bind hiterate fun next hnext => ?_
    refine (ih (iteration + 1)).mono fun result hresult => ?_
    rw [hresult, hnext]
    split <;> omega

/-- A chain that starts keeps one draw for each of its iterations that is not for tuning. -/
theorem markovChain_kept {config : InferenceConfig} {chain : Nat}
    (hstart : ((Chain.init m chain config.maxInitAttempts.toNat).run : Random σ _).Always
      fun started => ∃ c, started = .ok (some c)) (allowance : Option Nat) :
    (markovChain m config allowance chain : Random σ _).Always fun result =>
      ∃ run, result = .ok run ∧
        run.draws.length = allowed allowance config.iterations.toNat - config.tune.toNat := by
  unfold markovChain
  refine Random.Always.bind hstart fun started hstarted => ?_
  obtain ⟨c, rfl⟩ := hstarted
  refine Random.Always.bind (Chain.run_length _ _ 0) fun result hresult => ?_
  refine Random.Always.of_pure ⟨_, rfl, ?_⟩
  simpa using hresult

theorem markovChain_length {config : InferenceConfig} (htune : config.tune = 0) {chain : Nat}
    (hstart : ((Chain.init m chain config.maxInitAttempts.toNat).run : Random σ _).Always
      fun started => ∃ c, started = .ok (some c)) (allowance : Option Nat) :
    (markovChain m config allowance chain : Random σ _).Always fun result =>
      ∃ run, result = .ok run ∧
        run.draws.length = allowed allowance config.iterations.toNat := by
  refine (markovChain_kept hstart allowance).mono ?_
  rintro result ⟨run, rfl, hlength⟩
  exact ⟨run, rfl, by simpa [htune] using hlength⟩

/-- A run of one draw. -/
def singleDraw : InferenceConfig := { sampleCount := 1, chains := 1, tune := 0 }

/-- The one draw of a run on the certain coin shows the observed side. -/
theorem certainCoin_rows_satisfied :
    Chain.certainCoin.Declared ∧ Chain.certainCoin.compile = .ok Chain.certainCoinModel ∧
      ∃ t matrices, inferWithin Chain.certainCoinModel singleDraw (fun _ => Xoshiro.ofSeed 0)
        (fun _ => none) = .ok t ∧ t.chains[0]? = some matrices ∧ 0 < t.draws.getD 0 0 ∧
        ∀ x ∈ Model.siteValues (.output 0 none) (Chain.certainCoinModel.rowState matrices 0)
          (Chain.certainCoinModel.rowOutputs matrices 0), Relation.eq.Satisfied x (.real 1) := by
  have hstart : ((Chain.init Chain.certainCoinModel 0 singleDraw.maxInitAttempts.toNat).run :
      Random Xoshiro _).Always fun started => ∃ c, started = .ok (some c) :=
    (Chain.certainCoin_init 0 999).mono fun started ⟨c, hc, _⟩ => ⟨c, hc⟩
  obtain ⟨run, hrun, hlength⟩ :=
    markovChain_length (show singleDraw.tune = 0 from rfl) hstart none (Xoshiro.ofSeed 0)
  have hinfer : inferWithin Chain.certainCoinModel singleDraw (fun _ => Xoshiro.ofSeed 0)
      (fun _ => none) = .ok (Trace.ofRuns Chain.certainCoinModel true [run]) := by
    refine Except.bind_eq_ok_iff.mpr ⟨(), rfl, Except.bind_eq_ok_iff.mpr ⟨[run], ?_, rfl⟩⟩
    exact Except.mapM_eq_ok_iff.mpr (.cons hrun .nil)
  have hdraws : 0 < (Trace.ofRuns Chain.certainCoinModel true [run]).draws.getD 0 0 := by
    have hcount : run.draws.length = 1 := hlength
    have hsize : (Trace.ofRuns Chain.certainCoinModel true [run]).draws.getD 0 0 =
        (Matrix.ofLists 1 ((run.draws.map Chain.certainCoinModel.tracedValues).map
          fun values => values.getD 0 [])).size := rfl
    rw [hsize]
    simp [Matrix.size, Matrix.ofLists, hcount]
  refine ⟨Chain.certainCoin_declared, Chain.certainCoin_compile, _, _, hinfer, rfl, hdraws, ?_⟩
  intro x hx
  exact (inferWithin_rows_satisfied Chain.certainCoin_declared Chain.certainCoin_compile rfl
    (by decide) hinfer rfl hdraws).1 _ (List.mem_singleton.mpr rfl) rfl x hx _
    (List.mem_singleton.mpr rfl)

end InfoFlow
