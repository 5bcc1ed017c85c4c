import InfoFlow.Proofs.Inference.Recorded

namespace InfoFlow

variable {α σ : Type} [Scalar α] [RandomWords σ] {m : Model α}

/-- A draw has a value for every element of every node, and the outputs at these values. -/
structure Draw.IsConsistent (m : Model α) (draw : Draw α) : Prop where
  fits : m.Fits draw.state
  outputs_eq : m.evaluate draw.state = .ok draw.outputs

theorem Draw.IsCoherent.isConsistent {draw : Draw α} (h : draw.IsCoherent m) :
    draw.IsConsistent m := by
  obtain ⟨c, hc, rfl⟩ := h
  exact ⟨hc.fits, hc.outputs_eq⟩

namespace PriorChain

theorem attempt_isConsistent (m : Model α) :
    (attempt m : Random σ _).Always fun answer =>
      ∀ draw, answer = .ok draw → draw.IsConsistent m := by
  unfold attempt
  refine Random.Always.bind (Model.samplePrior_fits m) fun drawn hfits => ?_
  cases drawn with
  | error fault => exact Random.Always.of_pure fun draw hdraw => by cases hdraw
  | ok state =>
    cases houtputs : m.evaluate state with
    | error fault =>
      simp only [houtputs]
      exact Random.Always.of_pure fun draw hdraw => by cases hdraw
    | ok outputs =>
      simp only [houtputs]
      refine Random.Always.of_pure fun draw hdraw => ?_
      cases hdraw
      exact ⟨hfits state rfl, houtputs⟩

variable {P : Draw α → Prop}

/-- Recording adds one draw, however many attempts it takes. -/
theorem record_draws (hattempt : (attempt m : Random σ _).Always fun answer =>
      ∀ draw, answer = .ok draw → P draw) (chain iteration attempts : Nat) (c : PriorChain α) :
    ((record m chain iteration attempts c).run : Random σ _).Always fun answer => ∀ next,
      answer = .ok (some next) → ∃ draw : Draw α, P draw ∧ next.draws = draw :: c.draws := by
  induction attempts generalizing c with
  | zero => exact Random.Always.of_pure fun next hnext => by cases hnext
  | succ attempts ih =>
    unfold record
    rw [Drawing.run_lift_bind]
    refine Random.Always.bind hattempt fun answer hanswer => ?_
    rcases answer with (rejection | b) | draw
    · by_cases hlast : attempts = 0
      · simp only [hlast, if_true]
        exact Random.Always.of_pure nofun
      · simp only [hlast, if_false]
        exact ih (c.reject chain iteration rejection)
    · exact Random.Always.of_pure nofun
    · refine Random.Always.of_pure fun next hnext => ?_
      cases hnext
      exact ⟨draw, hanswer draw rfl, rfl⟩

theorem run_draws (hattempt : (attempt m : Random σ _).Always fun answer =>
      ∀ draw, answer = .ok draw → P draw) (chain attempts n iteration : Nat) (c : PriorChain α)
    (hc : ∀ draw ∈ c.draws, P draw) :
    ((run m chain attempts n iteration c).run : Random σ _).Always fun answer => ∀ final,
      answer = .ok (some final) → final.draws.length = c.draws.length + n ∧
        ∀ draw ∈ final.draws, P draw := by
  induction n generalizing iteration c with
  | zero =>
    refine Random.Always.of_pure fun final hfinal => ?_
    cases hfinal
    exact ⟨rfl, hc⟩
  | succ n ih =>
    unfold run
    refine Random.Always.run_bind (record_draws hattempt chain iteration attempts c)
      (fun answer hanswer => ?_) fun _ _ => nofun
    cases answer with
    | none => exact Random.Always.of_pure nofun
    | some next =>
      obtain ⟨draw, hdraw, hdraws⟩ := hanswer next rfl
      have hnext : ∀ draw ∈ next.draws, P draw := by
        rw [hdraws]
        exact List.forall_mem_cons.mpr ⟨hdraw, hc⟩
      refine (ih (iteration + 1) next hnext).mono fun answer h final hfinal => ?_
      obtain ⟨hlength, hall⟩ := h final hfinal
      rw [hdraws, List.length_cons] at hlength
      exact ⟨by omega, hall⟩

end PriorChain

/-- Every draw of a chain that is recorded is consistent, and the number of them is known. -/
def ChainRun.Records (m : Model α) (n : Nat) (run : ChainRun α) : Prop :=
  run.draws.length = n ∧ ∀ draw ∈ run.draws, draw.IsConsistent m

/-- A chain of prior draws records what every attempt that succeeds has. -/
theorem priorChain_draws {P : Draw α → Prop}
    (hattempt : (PriorChain.attempt m : Random σ _).Always fun answer =>
      ∀ draw, answer = .ok draw → P draw)
    (config : InferenceConfig) (allowance : Option Nat) (chain : Nat) :
    (priorChain m config allowance chain : Random σ _).Always fun answer => ∀ run,
      answer = .ok run → run.draws.length = allowed allowance config.sampleCount.toNat ∧
        ∀ draw ∈ run.draws, P draw := by
  unfold priorChain
  refine Random.Always.bind (PriorChain.run_draws hattempt chain _ _ 0 ⟨[], 0, []⟩ (by simp)) ?_
  intro answer hanswer
  rcases answer with b | (_ | final)
  · exact Random.Always.of_pure nofun
  · exact Random.Always.of_pure nofun
  · refine Random.Always.of_pure fun run hrun => ?_
    cases hrun
    obtain ⟨hlength, hall⟩ := hanswer final rfl
    refine ⟨?_, fun draw hdraw => hall draw (List.mem_reverse.mp hdraw)⟩
    rw [List.length_reverse, hlength, List.length_nil, Nat.zero_add]

theorem priorChain_records (m : Model α) (config : InferenceConfig) (allowance : Option Nat)
    (chain : Nat) :
    (priorChain m config allowance chain : Random σ _).Always fun answer => ∀ run,
      answer = .ok run → run.Records m (allowed allowance config.sampleCount.toNat) :=
  priorChain_draws (PriorChain.attempt_isConsistent m) config allowance chain

/-- A Markov chain records a draw in each iteration after those for tuning. -/
theorem markovChain_draws_length (m : Model α) (config : InferenceConfig)
    (allowance : Option Nat) (chain : Nat) :
    (markovChain m config allowance chain : Random σ _).Always fun answer => ∀ run,
      answer = .ok run →
        run.draws.length = allowed allowance config.iterations.toNat - config.tune.toNat := by
  refine markovChain_always (S := fun _ => True) (fun _ _ _ => trivial)
    (fun _ _ => Chain.run_length _ _ 0) fun last draws hlength => ?_
  rw [List.length_reverse, hlength]
  simp

theorem markovChain_records [LawfulScalar α] [LawfulExp α] (hm : m.WellFormed)
    {config : InferenceConfig} (hwords : config.tune.toNat + config.sampleCount.toNat < 2 ^ 64)
    (chain : Nat) :
    (markovChain m config none chain : Random σ _).Always fun answer => ∀ run,
      answer = .ok run → run.Records m config.sampleCount.toNat := by
  intro s run hrun
  have hiterations : config.iterations.toNat = config.tune.toNat + config.sampleCount.toNat :=
    (UInt64.toNat_add _ _).trans (Nat.mod_eq_of_lt hwords)
  have hlength := markovChain_draws_length m config none chain s run hrun
  rw [allowed, Option.elim_none, hiterations, Nat.add_sub_cancel_left] at hlength
  exact ⟨hlength, fun draw hdraw =>
    (markovChain_coherent hm config none chain s run hrun draw hdraw).isConsistent⟩

/-- Every chain of a run without a clock records as many draws as were asked for. -/
theorem runChain_records [LawfulScalar α] [LawfulExp α] (hm : m.WellFormed)
    {config : InferenceConfig} (hwords : config.tune.toNat + config.sampleCount.toNat < 2 ^ 64)
    (chain : Nat) :
    (runChain m config none chain : Random σ _).Always fun answer => ∀ run,
      answer = .ok run → run.Records m config.sampleCount.toNat := by
  unfold runChain
  split
  · exact priorChain_records m config none chain
  · exact markovChain_records hm hwords chain

theorem allowed_le (allowance : Option Nat) (n : Nat) : allowed allowance n ≤ n := by
  cases allowance with
  | none => exact le_rfl
  | some k => exact min_le_left n k

/-- A chain that is not truncated has been allowed everything. -/
theorem allowed_eq {allowance : Option Nat} {n : Nat} (h : decide (allowed allowance n < n) = false) :
    allowed allowance n = n :=
  le_antisymm (allowed_le _ _) (not_lt.mp (decide_eq_false_iff_not.mp h))

/-- No chain records more draws than were asked for. -/
theorem runChain_length_le (m : Model α) (config : InferenceConfig) (allowance : Option Nat)
    (chain : Nat) :
    (runChain m config allowance chain : Random σ _).Always fun answer => ∀ run,
      answer = .ok run → run.draws.length ≤ config.sampleCount.toNat := by
  unfold runChain
  split
  · refine (priorChain_records m config allowance chain).mono fun answer h run hrun => ?_
    exact (h run hrun).1.trans_le (allowed_le _ _)
  · refine (markovChain_draws_length m config allowance chain).mono fun answer h run hrun => ?_
    have hallowed := allowed_le allowance config.iterations.toNat
    -- the planned iterations may wrap around, and are then fewer
    have hiterations : config.iterations.toNat ≤ config.tune.toNat + config.sampleCount.toNat :=
      (UInt64.toNat_add _ _).trans_le (Nat.mod_le _ _)
    have hlength := h run hrun
    omega

end InfoFlow
