import InfoFlow.CheckedSums
import InfoFlow.Proofs.Inference.Traces

namespace InfoFlow

namespace InferenceConfig

/-- The draws of each chain of a run without a time budget. -/
def drawsPerChain (c : InferenceConfig) (isPrior : Bool) : Nat :=
  if isPrior = true ∨ c.tune.toNat + c.sampleCount.toNat < 2 ^ 64 then c.sampleCount.toNat else 0

theorem drawsPerChain_prior (c : InferenceConfig) :
    c.drawsPerChain true = c.sampleCount.toNat := if_pos (.inl rfl)

/-- The iterations that are left after those for tuning. -/
theorem drawsPerChain_markov (c : InferenceConfig) :
    c.drawsPerChain false = c.iterations.toNat - c.tune.toNat := by
  have hiterations : c.iterations.toNat = (c.tune.toNat + c.sampleCount.toNat) % 2 ^ 64 :=
    UInt64.toNat_add _ _
  have htune : c.tune.toNat < 2 ^ 64 := c.tune.toNat_lt_size
  have hcount : c.sampleCount.toNat < 2 ^ 64 := c.sampleCount.toNat_lt_size
  unfold drawsPerChain
  rw [hiterations]
  by_cases hwords : c.tune.toNat + c.sampleCount.toNat < 2 ^ 64
  · rw [if_pos (.inr hwords), Nat.mod_eq_of_lt hwords, Nat.add_sub_cancel_left]
  · have hnone : ¬ (false = true ∨ c.tune.toNat + c.sampleCount.toNat < 2 ^ 64) := by simpa using hwords
    -- a wrapped sum is below both of its terms
    rw [if_neg hnone]
    omega

theorem sampleCount_ne_zero {c : InferenceConfig} (h : c.validate = .ok ()) :
    c.sampleCount ≠ 0 := by
  intro hzero
  unfold validate at h
  simp [hzero, throw, throwThe, MonadExceptOf.throw, Bind.bind, Except.bind] at h

/-- As many draws as were asked for are made from the prior, or where the iterations fit into a word. -/
theorem drawsPerChain_eq_iff {c : InferenceConfig} (h : c.validate = .ok ()) (isPrior : Bool) :
    c.drawsPerChain isPrior = c.sampleCount.toNat ↔
      isPrior = true ∨ c.tune.toNat + c.sampleCount.toNat < 2 ^ 64 := by
  have hpos : c.sampleCount.toNat ≠ 0 := fun hzero =>
    sampleCount_ne_zero h (UInt64.toNat_inj.mp hzero)
  unfold drawsPerChain
  split
  · rename_i hfits
    exact iff_of_true rfl hfits
  · rename_i hwraps
    exact iff_of_false (Ne.symm hpos) hwraps

end InferenceConfig

variable {α σ : Type} [Scalar α] [RandomWords σ] {m : Model α}

/-- A chain of prior draws is truncated where it is not allowed all of its draws. -/
theorem priorChain_isTruncated (m : Model α) (config : InferenceConfig) (allowance : Option Nat)
    (chain : Nat) :
    (priorChain m config allowance chain : Random σ _).Always fun answer => ∀ run,
      answer = .ok run → run.isTruncated =
        decide (allowed allowance config.sampleCount.toNat < config.sampleCount.toNat) := by
  unfold priorChain
  refine Random.Always.bind_any fun answer => ?_
  rcases answer with b | (_ | final)
  · exact Random.Always.of_pure nofun
  · exact Random.Always.of_pure nofun
  · refine Random.Always.of_pure fun run hrun => ?_
    cases hrun
    rfl

/-- A Markov chain is truncated where it is not allowed all of its iterations. -/
theorem markovChain_isTruncated (m : Model α) (config : InferenceConfig) (allowance : Option Nat)
    (chain : Nat) :
    (markovChain m config allowance chain : Random σ _).Always fun answer => ∀ run,
      answer = .ok run → run.isTruncated =
        decide (allowed allowance config.iterations.toNat < config.iterations.toNat) :=
  markovChain_always (S := fun _ => True) (D := fun _ => True) (fun _ _ _ => trivial)
    (fun _ _ _ => trivial) fun _ _ _ => rfl

/-- Without a time budget, both samplers end by themselves, the Markov chain after what its iterations
leave. -/
theorem runChain_draws (m : Model α) (config : InferenceConfig) (chain : Nat) :
    (runChain m config none chain : Random σ _).Always fun answer => ∀ run, answer = .ok run →
      run.isTruncated = false ∧
        run.draws.length = config.drawsPerChain (m.drawsPrior config.strategy) := by
  have hends (n : Nat) : decide (allowed none n < n) = false := decide_eq_false (lt_irrefl n)
  unfold runChain
  cases m.drawsPrior config.strategy with
  | true =>
    rw [if_pos rfl, InferenceConfig.drawsPerChain_prior]
    intro s run hrun
    exact ⟨(priorChain_isTruncated m config none chain s run hrun).trans (hends _),
      (priorChain_records m config none chain s run hrun).1⟩
  | false =>
    rw [if_neg Bool.false_ne_true, InferenceConfig.drawsPerChain_markov]
    intro s run hrun
    exact ⟨(markovChain_isTruncated m config none chain s run hrun).trans (hends _),
      markovChain_draws_length m config none chain s run hrun⟩

/-- The trace has some number of chains that were not truncated, each of them with so many draws, in its
matrices and in its summary. -/
structure Trace.HasDraws (t : Trace α) (chains draws : Nat) : Prop where
  length_chains : t.chains.length = chains
  size_eq {matrices : List (Matrix α)} {matrix : Matrix α} : matrices ∈ t.chains →
    matrix ∈ matrices → matrix.size = draws
  length_summaries : t.diagnostics.chains.length = chains
  summary_eq {summary : ChainSummary α} : summary ∈ t.diagnostics.chains →
    summary.isTruncated = false ∧ summary.draws = draws

/-- The chains of a trace have the draws of the runs that it is made of. -/
theorem Trace.hasDraws_ofRuns {runs : List (ChainRun α)} {draws : Nat}
    (hruns : ∀ run ∈ runs, run.isTruncated = false ∧ run.draws.length = draws)
    (isConditioned : Bool) : (Trace.ofRuns m isConditioned runs).HasDraws runs.length draws where
  length_chains := List.length_map _
  size_eq hmatrices hmatrix := by
    obtain ⟨run, hrun, rfl⟩ := List.mem_map.mp hmatrices
    rw [Model.size_of_mem_recordedMatrices hmatrix]
    exact (hruns run hrun).2
  length_summaries := by
    unfold ofRuns
    simp only [List.length_map, List.length_zipIdx]
  summary_eq hsummary := by
    obtain ⟨⟨run, i⟩, hrun, rfl⟩ := List.mem_map.mp hsummary
    exact hruns run (List.fst_mem_of_mem_zipIdx hrun)

theorem inferWith_hasDraws {config : InferenceConfig} (hbudget : config.timeBudget = none)
    {stream : Nat → σ} {t : Trace α} (ht : inferWith m config stream = .ok t) :
    t.HasDraws config.chains.toNat (config.drawsPerChain (m.drawsPrior config.strategy)) := by
  have hallowance : config.allowance = none := by
    simp [InferenceConfig.allowance, hbudget]
  obtain ⟨runs, _, hlength, hruns, rfl⟩ := exists_runs_of_inferWithin ht
  rw [← hlength]
  refine Trace.hasDraws_ofRuns (fun run hrun => ?_) _
  obtain ⟨chain, hanswer⟩ := hruns run hrun
  rw [hallowance] at hanswer
  exact runChain_draws m config chain (stream chain) run hanswer

/-- Without a time budget, no chain of a run that succeeds is truncated. Every chain has as many draws as
were asked for if they come from the prior, or if its iterations fit into a machine word; and if they do
not, it has none. -/
theorem inferWith_draws {config : InferenceConfig} (hbudget : config.timeBudget = none)
    {stream : Nat → σ} {t : Trace α} (ht : inferWith m config stream = .ok t) :
    t.HasDraws config.chains.toNat (config.drawsPerChain (m.drawsPrior config.strategy)) ∧
      (config.drawsPerChain (m.drawsPrior config.strategy) = config.sampleCount.toNat ↔
        m.drawsPrior config.strategy = true ∨
          config.tune.toNat + config.sampleCount.toNat < 2 ^ 64) := by
  obtain ⟨_, hvalid, _⟩ := Except.bind_eq_ok_iff.mp ht
  rw [Except.mapError_eq_ok_iff] at hvalid
  exact ⟨inferWith_hasDraws hbudget ht, InferenceConfig.drawsPerChain_eq_iff hvalid _⟩

/-- The three draws of each of two chains on the certain coin. -/
theorem certainCoin_hasDraws : twoChains.timeBudget = none ∧
    ∃ t, infer Chain.certainCoinModel twoChains = .ok t ∧ t.HasDraws 2 3 := by
  obtain ⟨t, ht⟩ : ∃ t, infer Chain.certainCoinModel twoChains = .ok t :=
    certainCoin_inferWith rfl rfl rfl _
  exact ⟨rfl, t, ht, (inferWith_draws rfl ht).1⟩

/-- A run of one draw, with as many iterations for tuning as a word can count. -/
def endlessTuning : InferenceConfig := { singleDraw with tune := 18446744073709551615 }

/-- The one iteration more than a word can count makes them zero: the chain has no draw, and is not
truncated. -/
theorem endlessTuning_no_draws : Chain.certainCoin.compile = .ok Chain.certainCoinModel ∧
    endlessTuning.validate = .ok () ∧ endlessTuning.timeBudget = none ∧
      ∃ t, infer Chain.certainCoinModel endlessTuning = .ok t ∧
        ∃ summary ∈ t.diagnostics.chains, summary.isTruncated = false ∧
          summary.draws ≠ endlessTuning.sampleCount.toNat := by
  obtain ⟨t, ht⟩ : ∃ t, infer Chain.certainCoinModel endlessTuning = .ok t :=
    certainCoin_inferWith rfl rfl rfl _
  have hdraws : t.HasDraws 1 0 := inferWith_hasDraws rfl ht
  obtain ⟨summary, hsummary⟩ : ∃ summary, summary ∈ t.diagnostics.chains :=
    List.exists_mem_of_length_pos (hdraws.length_summaries ▸ Nat.one_pos)
  refine ⟨Chain.certainCoin_compile, rfl, rfl, t, ht, summary, hsummary,
    (hdraws.summary_eq hsummary).1, ?_⟩
  rw [(hdraws.summary_eq hsummary).2]
  decide

section Checked

/-- Checks change nothing about a chain of prior draws, or where the iterations are a word. -/
theorem runChainChecked_of_fits {config : InferenceConfig}
    (h : m.drawsPrior config.strategy = true ∨
      config.tune.toNat + config.sampleCount.toNat < 2 ^ 64) (allowance : Option Nat) (chain : Nat) :
    (runChainChecked m config allowance chain : Random σ _) = runChain m config allowance chain := by
  unfold runChainChecked
  cases hprior : m.drawsPrior config.strategy with
  | true =>
    simp only [if_true]
    exact bind_pure _
  | false =>
    have hfits : config.tune.toNat + config.sampleCount.toNat < 2 ^ 64 := by
      simpa [hprior] using h
    simp only [Bool.false_eq_true, if_false, wordSum_of_fits hfits]
    refine (bind_congr fun answer => ?_).trans (bind_pure _)
    cases answer <;> rfl

theorem inferWithChecked_of_fits {config : InferenceConfig}
    (h : m.drawsPrior config.strategy = true ∨
      config.tune.toNat + config.sampleCount.toNat < 2 ^ 64) (stream : Nat → σ) :
    inferWithChecked m config stream = inferWith m config stream := by
  unfold inferWithChecked inferWith inferWithin
  simp only [runChainChecked_of_fits h]

/-- A chain succeeds only where its draws come from the prior, or where its iterations are a word. -/
theorem runChainChecked_fits (m : Model α) (config : InferenceConfig) (allowance : Option Nat)
    (chain : Nat) :
    (runChainChecked m config allowance chain : Random σ _).Always fun answer => ∀ run,
      answer = .ok run → m.drawsPrior config.strategy = true ∨
        config.tune.toNat + config.sampleCount.toNat < 2 ^ 64 := by
  unfold runChainChecked
  refine Random.Always.bind_any fun answer => ?_
  split_ifs with hprior
  · exact Random.Always.of_pure fun _ _ => .inl hprior
  · refine Random.Always.of_pure fun run hrun => .inr ?_
    obtain ⟨_, _, hrun⟩ := Except.bind_eq_ok_iff.mp hrun
    obtain ⟨_, hsum, _⟩ := Except.bind_eq_ok_iff.mp hrun
    by_contra hwraps
    rw [wordSum_of_wraps hwraps] at hsum
    cases hsum

/-- With checked iterations and without a time budget, every chain of a run that succeeds has as many
draws as were asked for. -/
theorem inferWithChecked_hasDraws {config : InferenceConfig} (hbudget : config.timeBudget = none)
    {stream : Nat → σ} {t : Trace α} (ht : inferWithChecked m config stream = .ok t) :
    t.HasDraws config.chains.toNat config.sampleCount.toNat := by
  obtain ⟨_, hvalid, hruns⟩ := Except.bind_eq_ok_iff.mp ht
  rw [Except.mapError_eq_ok_iff] at hvalid
  obtain ⟨runs, hall, _⟩ := Except.bind_eq_ok_iff.mp hruns
  have hfits : m.drawsPrior config.strategy = true ∨
      config.tune.toNat + config.sampleCount.toNat < 2 ^ 64 := by
    have hmem : 0 ∈ List.range config.chains.toNat :=
      List.mem_range.mpr (InferenceConfig.chains_pos hvalid)
    obtain ⟨run, _, hrun⟩ := (Except.mapM_eq_ok_iff.mp hall).exists_of_mem_left hmem
    exact runChainChecked_fits m config config.allowance 0 (stream 0) run hrun
  rw [inferWithChecked_of_fits hfits] at ht
  have hdraws := inferWith_hasDraws hbudget ht
  rwa [(InferenceConfig.drawsPerChain_eq_iff hvalid _).mpr hfits] at hdraws

end Checked

end InfoFlow
