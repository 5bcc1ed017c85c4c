import InfoFlow.Proofs.Inference.Histories
import InfoFlow.Proofs.Inference.Iterations

namespace InfoFlow

/-- Machine words count the elements of a state, each of which takes some bytes of memory. -/
def Model.HasStorableStates {α : Type} (m : Model α) : Prop :=
  (m.nodes.toList.map Node.width).sum < UInt64.size

theorem Model.movedWidth_le {α : Type} (m : Model α) :
    m.movedWidth ≤ (m.nodes.toList.map Node.width).sum :=
  (List.filter_sublist.map Node.width).sum_le_sum fun _ _ => Nat.zero_le _

variable {α σ : Type} [Scalar α] [RandomWords σ]

section Rates

theorem MoveCount.rate_eq_zero {moves : MoveCount} (h : moves.proposed = 0) :
    (moves.rate : α) = 0 := if_pos h

theorem MoveCount.rate_mem [LawfulOrder α] [LawfulShares α] {moves : MoveCount}
    (haccepted : moves.accepted ≤ moves.proposed) (hmany : moves.proposed ≤ 2 ^ 128) :
    0 ≤ (moves.rate : α) ∧ (moves.rate : α) ≤ 1 := by
  unfold rate
  split
  · obtain ⟨hnonneg, hle⟩ := LawfulShares.share_mem (α := α) (Nat.zero_le 1) one_ne_zero (by norm_num)
    exact ⟨Scalar.le_refl LawfulOrder.isNaN_zero, LawfulOrder.le_trans hnonneg hle⟩
  · rename_i hne
    exact LawfulShares.share_mem haccepted hne hmany

end Rates

/-- A Markov chain has made `tuning` iterations for tuning from `start`, and then one for each of its rows,
and reports what has happened in them. -/
structure ChainRun.IsOfHistory (run : ChainRun α) (m : Model α) (tuning rows : Nat) (start : Chain α)
    (s : σ) : Prop where
  /-- The history is that of the chain. -/
  run_eq : (start.run m tuning (tuning + rows) 0 [] : Random σ _).run s =
    (((Chronicle.history m tuning start s (tuning + rows)).1.chain, run.draws.reverse),
      (Chronicle.history m tuning start s (tuning + rows)).2)
  length_draws : run.draws.length = rows
  /-- All moves after tuning are counted, and those that were accepted. -/
  moves_eq (n : Nat) : (Chronicle.history m tuning start s n).1.chain.moves =
    ⟨(Chronicle.history m tuning start s n).1.verdicts.count true,
      (Chronicle.history m tuning start s n).1.verdicts.length⟩
  length_verdicts (n : Nat) :
    (Chronicle.history m tuning start s n).1.verdicts.length = (n - tuning) * m.movedWidth
  acceptance_eq : run.acceptance =
    (Chronicle.history m tuning start s (tuning + rows)).1.chain.moves.rate
  acceptance_mem : m.HasStorableStates → 0 ≤ run.acceptance ∧ run.acceptance ≤ 1
  acceptance_eq_zero : rows * m.movedWidth = 0 → run.acceptance = 0
  scalesWithin (n : Nat) : (Chronicle.history m tuning start s n).1.chain.ScalesWithin
  scales_sweep_eq (n : Nat) :
    (((Chronicle.history m tuning start s n).1.chain.sweep m (n < tuning) : Random σ _).run
      (Chronicle.history m tuning start s n).2).1.scales =
        (Chronicle.history m tuning start s n).1.chain.scales
  /-- Scales change at the end of a full window while tuning. -/
  scales_succ_eq {n : Nat} : ¬ (n < tuning ∧ (n + 1) % tuneInterval = 0) →
    (Chronicle.history m tuning start s (n + 1)).1.chain.scales =
      (Chronicle.history m tuning start s n).1.chain.scales
  scales_eq (r : Nat) : (Chronicle.history m tuning start s (tuning + r)).1.chain.scales =
    (Chronicle.history m tuning start s tuning).1.chain.scales
  isReported : IsReported (Chronicle.history m tuning start s (tuning + rows)).1.divergences
    run.divergences run.warnings

/-- What a chain of a run reports is what has happened to it. -/
def ChainRun.IsAccountedFor (run : ChainRun α) (m : Model α) (config : InferenceConfig) (chain : Nat)
    (s : σ) : Prop :=
  if m.drawsPrior config.strategy then
    ∃ attempts, run.IsOfAttempts m s chain config.sampleCount.toNat attempts
  else ∃ start s', (Chain.init m chain config.maxInitAttempts.toNat).run.run s =
    (.ok (some start), s') ∧ run.IsOfHistory m config.tune.toNat config.sampleCount.toNat start s'

variable {p : Program α} {m : Model α}

section Chains

variable [LawfulOrder α] [LawfulBounds α] [LawfulShares α] [LawfulScales α]

/-- What is left of a chain at the end of its history accounts for it. -/
theorem isOfHistory_of_start? (hm : p.compile = .ok m) {id : Nat} {state : State α} {start : Chain α}
    (hstart : Chain.start? m id state = some start) (tuning : Nat) {rows : Nat} (hrows : rows ≤ 2 ^ 64)
    (s : σ) (isTruncated : Bool) :
    let final := (Chronicle.history m tuning start s (tuning + rows)).1.chain
    (⟨Chronicle.drawsOf m tuning start s (tuning + rows), final.moves.rate, final.divergences,
      final.warnings, isTruncated⟩ : ChainRun α).IsOfHistory m tuning rows start s := by
  intro final
  obtain ⟨hfresh, hscales⟩ := Chain.fresh_of_start? hstart
  have hcounted (n : Nat) := Chronicle.isCounted_history hm tuning n s hfresh
  have hproposed : final.moves.proposed = rows * m.movedWidth := by
    rw [(hcounted _).moves_eq, Chronicle.length_verdicts_history hm, Nat.add_sub_cancel_left]
  have haccepted : final.moves.accepted ≤ final.moves.proposed := by
    rw [(hcounted _).moves_eq]
    exact List.count_le_length
  refine ⟨?_, ?_, fun n => (hcounted n).moves_eq,
    fun n => Chronicle.length_verdicts_history hm tuning n start s, rfl, fun hstorable => ?_,
    fun hnone => ?_, fun n => Chronicle.scalesWithin_history hm tuning n s hscales,
    fun n => Chronicle.scales_sweep m _ _ _,
    fun hwindow => (Chronicle.history_iterates hm tuning _ start s).scales_eq hwindow,
    fun r => Chronicle.scales_history hm tuning r start s, (hcounted _).isReported⟩
  · exact Chronicle.run_eq_history m tuning start s _
  · simp [Chronicle.drawsOf]
  · refine MoveCount.rate_mem haccepted ?_
    rw [hproposed]
    exact (Nat.mul_le_mul hrows (m.movedWidth_le.trans hstorable.le)).trans (by norm_num [UInt64.size])
  · exact MoveCount.rate_eq_zero (hproposed.trans hnone)

theorem markovChain_isOfHistory (hm : p.compile = .ok m) {config : InferenceConfig}
    (hwords : config.tune.toNat + config.sampleCount.toNat < 2 ^ 64) {allowance : Option Nat}
    {chain : Nat} {s : σ} {run : ChainRun α}
    (hrun : ((markovChain m config allowance chain : Random σ _).run s).1 = .ok run)
    (hcomplete : run.isTruncated = false) :
    ∃ start s', (Chain.init m chain config.maxInitAttempts.toNat).run.run s =
      (.ok (some start), s') ∧ run.IsOfHistory m config.tune.toNat config.sampleCount.toNat start s' := by
  have hiterations : config.iterations.toNat = config.tune.toNat + config.sampleCount.toNat :=
    (UInt64.toNat_add _ _).trans (Nat.mod_eq_of_lt hwords)
  have htruncated := markovChain_isTruncated m config allowance chain s run hrun
  have hallowed : allowed allowance config.iterations.toNat =
      config.tune.toNat + config.sampleCount.toNat :=
    (allowed_eq (htruncated.symm.trans hcomplete)).trans hiterations
  unfold markovChain at hrun
  rw [Random.run_bind_eq] at hrun
  rcases hstarted : ((Chain.init m chain config.maxInitAttempts.toNat).run.run s).1 with
    b | (_ | start)
  · rw [hstarted] at hrun
    cases hrun
  · rw [hstarted] at hrun
    cases hrun
  · rw [hstarted] at hrun
    simp only [hallowed, Random.run_bind_eq, Chronicle.run_eq_history, List.reverse_reverse] at hrun
    cases hrun
    obtain ⟨state, _, hstart⟩ := Chain.init_start m chain _ s start hstarted
    exact ⟨start, _, Prod.ext hstarted rfl,
      isOfHistory_of_start? hm hstart _ config.sampleCount.toNat_lt_size.le _ _⟩

/-- A chain that succeeds and is not truncated is accounted for, whichever of the two samplers has made
it. -/
theorem runChain_isAccountedFor (hm : p.compile = .ok m) {config : InferenceConfig}
    (hwords : config.tune.toNat + config.sampleCount.toNat < 2 ^ 64) {allowance : Option Nat}
    {chain : Nat} {s : σ} {run : ChainRun α}
    (hrun : ((runChain m config allowance chain : Random σ _).run s).1 = .ok run)
    (hcomplete : run.isTruncated = false) : run.IsAccountedFor m config chain s := by
  unfold runChain at hrun
  unfold ChainRun.IsAccountedFor
  split at hrun
  · rename_i hprior
    rw [if_pos hprior]
    have htruncated := priorChain_isTruncated m config allowance chain s run hrun
    have hallowed : allowed allowance config.sampleCount.toNat = config.sampleCount.toNat :=
      allowed_eq (htruncated.symm.trans hcomplete)
    rcases priorChain_cases m config allowance chain s with
      ⟨_, found, made, heq, hmade⟩ | ⟨_, heq⟩ | ⟨_, _, _, _, _, heq⟩
    · rw [hrun] at heq
      cases heq
      exact ⟨made, hallowed ▸ hmade⟩
    · exact nomatch hrun.symm.trans heq
    · exact nomatch hrun.symm.trans heq
  · rename_i hposterior
    rw [if_neg hposterior]
    exact markovChain_isOfHistory hm hwords hrun hcomplete

end Chains

/-- A chain of prior draws fails where it exhausts the attempts at one of its rows, and only there. -/
theorem priorChain_eq_error_iff (m : Model α) (config : InferenceConfig) (allowance : Option Nat)
    (chain : Nat) (s : σ) :
    ((priorChain m config allowance chain : Random σ _).run s).1 =
        .error (.error (.noValidSample chain config.maxInitAttempts.toNat)) ↔
      ∃ j, (PriorChain.recorded m s j).length < allowed allowance config.sampleCount.toNat ∧
        PriorChain.Exhausts m s config.maxInitAttempts.toNat j := by
  rcases priorChain_cases m config allowance chain s with
    ⟨hnot, run, made, heq, _⟩ | ⟨hexhausts, heq⟩ | ⟨hnot, j, b, _, _, heq⟩
  · rw [heq]
    exact iff_of_false nofun hnot
  · exact iff_of_true heq hexhausts
  · rw [heq]
    exact iff_of_false nofun hnot

/-- The diagnostics of a run that is not truncated account for all its chains. After tuning, a Markov chain
proposes a move for each element that is not constant in each of its iterations, and reports the share of
those that were accepted; its scales keep to their limits, and change at the end of a full window while
tuning only. Both samplers keep the first of the divergences that they have met. A chain of prior draws
fails where all attempts at one of its rows fail, and only there. -/
theorem inferWithin_accounted [LawfulOrder α] [LawfulBounds α] [LawfulShares α] [LawfulScales α]
    (hm : p.compile = .ok m) {config : InferenceConfig}
    (hwords : config.tune.toNat + config.sampleCount.toNat < 2 ^ 64) :
    (∀ (stream : Nat → σ) (allowance : Nat → Option Nat) (t : Trace α),
      inferWithin m config stream allowance = .ok t →
      (∀ summary ∈ t.diagnostics.chains, summary.isTruncated = false) →
      ∃ runs : List (ChainRun α), runs.length = config.chains.toNat ∧
        t = Trace.ofRuns m (!m.drawsPrior config.strategy && m.isConditioned) runs ∧
        ∀ (i : Nat) (run : ChainRun α), runs[i]? = some run →
          run.IsAccountedFor m config i (stream i)) ∧
    ∀ (allowance : Option Nat) (chain : Nat) (s : σ),
      ((priorChain m config allowance chain).run s).1 =
          .error (.error (.noValidSample chain config.maxInitAttempts.toNat)) ↔
        ∃ j, (PriorChain.recorded m s j).length < allowed allowance config.sampleCount.toNat ∧
          PriorChain.Exhausts m s config.maxInitAttempts.toNat j := by
  refine ⟨fun stream allowance t ht hcomplete => ?_, priorChain_eq_error_iff m config⟩
  obtain ⟨_, _, h⟩ := Except.bind_eq_ok_iff.mp ht
  obtain ⟨runs, hruns, h⟩ := Except.bind_eq_ok_iff.mp h
  cases h
  have hall := Except.mapM_eq_ok_iff.mp hruns
  refine ⟨runs, by simpa using hall.length_eq.symm, rfl, fun i run hi => ?_⟩
  obtain ⟨hlt, hget⟩ := List.getElem?_eq_some_iff.mp hi
  have hanswer := hall.get (hall.length_eq ▸ hlt) hlt
  simp only [List.get_eq_getElem, List.getElem_range, hget] at hanswer
  have hsummary : (⟨i, run.draws.length, run.acceptance, run.divergences, run.isTruncated⟩ :
      ChainSummary α) ∈ (Trace.ofRuns m (!m.drawsPrior config.strategy && m.isConditioned)
        runs).diagnostics.chains :=
    List.mem_map.mpr ⟨(run, i), List.mem_zipIdx_iff_getElem?.mpr hi, rfl⟩
  exact runChain_isAccountedFor hm hwords hanswer (hcomplete _ hsummary)

/-- Two chains of three draws, after a full window of tuning and the half of another. -/
def twoTunedChains : InferenceConfig := { twoChains with tune := 150 }

/-- Both elements of the certain coin are moved in both chains, three times each after tuning. -/
theorem certainCoin_accounted : Chain.certainCoin.compile = .ok Chain.certainCoinModel ∧
    twoTunedChains.tune.toNat + twoTunedChains.sampleCount.toNat < 2 ^ 64 ∧
      Chain.certainCoinModel.movedWidth = 2 ∧
      ∃ t, infer Chain.certainCoinModel twoTunedChains = .ok t ∧
        (∀ summary ∈ t.diagnostics.chains, summary.isTruncated = false) ∧
        ∃ first second : ChainRun Exact,
          t = Trace.ofRuns Chain.certainCoinModel true [first, second] ∧
          first.IsAccountedFor Chain.certainCoinModel twoTunedChains 0 (Xoshiro.ofSeedJumped 0 0) ∧
          second.IsAccountedFor Chain.certainCoinModel twoTunedChains 1
            (Xoshiro.ofSeedJumped 0 1) := by
  have hwords : twoTunedChains.tune.toNat + twoTunedChains.sampleCount.toNat < 2 ^ 64 := by decide
  obtain ⟨t, ht⟩ : ∃ t, infer Chain.certainCoinModel twoTunedChains = .ok t :=
    certainCoin_inferWith rfl rfl rfl _
  have hdraws : t.HasDraws 2 3 := inferWith_hasDraws rfl ht
  have hcomplete : ∀ summary ∈ t.diagnostics.chains, summary.isTruncated = false :=
    fun summary hsummary => (hdraws.summary_eq hsummary).1
  obtain ⟨runs, hlength, heq, hruns⟩ :=
    (inferWithin_accounted Chain.certainCoin_compile hwords).1 _ _ t ht hcomplete
  obtain ⟨first, second, rfl⟩ := List.length_eq_two.mp hlength
  exact ⟨Chain.certainCoin_compile, hwords, rfl, t, ht, hcomplete, first, second, heq,
    hruns 0 first rfl, hruns 1 second rfl⟩

end InfoFlow
