import InfoFlow.Proofs.Belief.Draws
import InfoFlow.Proofs.Belief.Search

namespace InfoFlow

open InfoFlow.Random

variable {α σ : Type} [Scalar α] [RandomWords σ]

namespace Search

section Combinations

/-- One family of each generator that could cover enough, with its place among those of the generator. -/
inductive Chooses : List (ScalarGenerator α) → List ℕ → List Family → Prop
  | nil : Chooses [] [] []
  | cons {g : ScalarGenerator α} {generators : List (ScalarGenerator α)} {i : ℕ} {places : List ℕ}
      {f : Family} {families : List Family} (hplace : g.families[i]? = some f)
      (hreachable : g.policy.minimum.toNat ≤ g.maxCoverage f) (hrest : Chooses generators places families) :
      Chooses (g :: generators) (i :: places) (f :: families)

/-- What a filter keeps has increasing places, and all entries of its kind are kept. -/
theorem places_of_filter {β : Type} (p : β → Bool) (xs : List β) : ∃ places : List ℕ,
    places.Pairwise (· < ·) ∧ (∀ i, i ∈ places ↔ ∃ x, xs[i]? = some x ∧ p x = true) ∧
      List.Forall₂ (fun i x => xs[i]? = some x ∧ p x = true) places (xs.filter p) := by
  have hkept : xs.filter p = (xs.zipIdx.filter (p ∘ Prod.fst)).map Prod.fst := by
    rw [← List.filter_map, List.zipIdx_map_fst]
  have hmem (x : β) (i : ℕ) : (x, i) ∈ xs.zipIdx.filter (p ∘ Prod.fst) ↔ xs[i]? = some x ∧ p x = true := by
    rw [List.mem_filter, List.mk_mem_zipIdx_iff_getElem?]
    rfl
  refine ⟨(xs.zipIdx.filter (p ∘ Prod.fst)).map Prod.snd, ?_, fun i => ?_, ?_⟩
  · refine List.Pairwise.sublist (List.filter_sublist.map Prod.snd) ?_
    rw [List.zipIdx_map_snd]
    exact List.pairwise_lt_range'
  · simp only [List.mem_map, Prod.exists, exists_eq_right, hmem]
  · rw [hkept, List.forall₂_map_left_iff, List.forall₂_map_right_iff, List.forall₂_same]
    rintro ⟨x, i⟩ h
    exact (hmem x i).mp h

/-- Combinations are in the lexicographic order of the places of their families. -/
theorem combinations_chooses (generators : List (ScalarGenerator α)) : ∃ places : List (List ℕ),
    places.Pairwise (· < ·) ∧ (∀ p, p ∈ places ↔ ∃ families, Chooses generators p families) ∧
      List.Forall₂ (Chooses generators) places
        (combinations (generators.map ScalarGenerator.reachableFamilies)) := by
  induction generators with
  | nil =>
    refine ⟨[[]], List.pairwise_singleton _ _, fun p => ?_, .cons .nil .nil⟩
    rw [List.mem_singleton]
    constructor
    · rintro rfl
      exact ⟨[], .nil⟩
    · rintro ⟨_, ⟨⟩⟩
      rfl
  | cons g generators ih =>
    obtain ⟨rest, hsorted, hcomplete, hchosen⟩ := ih
    obtain ⟨places, hsorted', hcomplete', hchosen'⟩ :=
      places_of_filter (fun f => g.isAdequate (g.maxCoverage f)) g.families
    -- The first place decides before all others, as the first generator's families vary slowest.
    refine ⟨places.flatMap fun i => rest.map (i :: ·), ?_, fun p => ?_, ?_⟩
    · refine List.pairwise_flatMap.mpr ⟨fun i _ => ?_, hsorted'.imp fun {i j} hij p hp q hq => ?_⟩
      · exact List.pairwise_map.mpr (hsorted.imp fun h => List.cons_lt_cons_iff.mpr (.inr ⟨rfl, h⟩))
      · obtain ⟨_, -, rfl⟩ := List.mem_map.mp hp
        obtain ⟨_, -, rfl⟩ := List.mem_map.mp hq
        exact List.cons_lt_cons_iff.mpr (.inl hij)
    · simp only [List.mem_flatMap, List.mem_map, hcomplete, hcomplete']
      constructor
      · rintro ⟨i, ⟨f, hplace, hreachable⟩, p, ⟨families, hrest⟩, rfl⟩
        exact ⟨f :: families, .cons hplace (of_decide_eq_true hreachable) hrest⟩
      · rintro ⟨_, _ | ⟨hplace, hreachable, hrest⟩⟩
        exact ⟨_, ⟨_, hplace, decide_eq_true hreachable⟩, _, ⟨_, hrest⟩, rfl⟩
    · refine List.rel_flatMap hchosen' fun i f hf => ?_
      rw [List.forall₂_map_left_iff, List.forall₂_map_right_iff]
      exact hchosen.imp fun p families h => .cons hf.1 (of_decide_eq_true hf.2) h

end Combinations

section Invariants

/-- `P` holds of all distributions that are drawn for families, and the moves of a search keep it. -/
structure Invariant (σ : Type) [RandomWords σ] (s : SearchSetting α) (families : List Family)
    (P : List (Distribution α) → Prop) : Prop where
  drawn : (drawDistributions (s.generators.zip families) : Random σ _).Always fun drawn =>
    ∀ distributions, drawn = .ok distributions → P distributions
  moved : ∀ {current distributions : List (Distribution α)} {move : ParameterMove} {h : α}, P current →
    propose? s.generators current move h = some distributions → P distributions

/-- All beliefs of a log have distributions that satisfy `P`. -/
def HoldsOf (P : List (Distribution α) → Prop) (log : List (MeasuredBelief α)) : Prop :=
  ∀ b ∈ log, P b.distributions

variable {s : SearchSetting α} {families : List Family} {P : List (Distribution α) → Prop}
  {log log' : List (MeasuredBelief α)} {best point top : MeasuredBelief α}

omit [Scalar α] in
theorem HoldsOf.append_singleton (hlog : HoldsOf P log) (hpoint : P point.distributions) :
    HoldsOf P (log ++ [point]) :=
  List.forall_mem_append.mpr ⟨hlog, List.forall_mem_singleton.mpr hpoint⟩

namespace Invariant

/-- The moves that are tried lead to beliefs with `P`, whether they are taken or not. -/
theorem firstImprovement_holds (hP : Invariant σ s families P) {h : α} {moves : List ParameterMove}
    {moved : Option (MeasuredBelief α)} (hpoint : P point.distributions) (hlog : HoldsOf P log)
    (hrun : firstImprovement s point h moves log = .ok (moved, log')) :
    (∀ better, moved = some better → P better.distributions) ∧ HoldsOf P log' := by
  have hnone {log : List (MeasuredBelief α)} (hlog : HoldsOf P log) :
      (∀ better, (none : Option (MeasuredBelief α)) = some better → P better.distributions) ∧
        HoldsOf P log := ⟨by rintro _ ⟨⟩, hlog⟩
  induction moves generalizing log with
  | nil =>
    cases hrun
    exact hnone hlog
  | cons move rest ih =>
    unfold firstImprovement at hrun
    split at hrun
    · cases hrun
      exact hnone hlog
    · split at hrun
      · exact ih hlog hrun
      · rename_i distributions hproposed
        have htried : P distributions := hP.moved hpoint hproposed
        split at hrun
        · cases hrun
        · rename_i outcome hmeasure
          have hlog' : HoldsOf P (log ++ [⟨distributions, outcome⟩]) := hlog.append_singleton htried
          dsimp only at hrun
          split at hrun
          · cases hrun
            refine ⟨?_, hlog'⟩
            rintro _ ⟨⟩
            exact htried
          · exact ih hlog' hrun

theorem climb_holds (hP : Invariant σ s families P) {h : α} {fuel : ℕ} (hpoint : P point.distributions)
    (hlog : HoldsOf P log) (hrun : climb s fuel point h log = .ok (top, log')) :
    P top.distributions ∧ HoldsOf P log' := by
  induction fuel generalizing point h log with
  | zero =>
    cases hrun
    exact ⟨hpoint, hlog⟩
  | succ fuel ih =>
    unfold climb at hrun
    split at hrun
    · split at hrun
      · cases hrun
      · rename_i better next hround
        obtain ⟨hbetter, hnext⟩ := hP.firstImprovement_holds hpoint hlog hround
        exact ih (hbetter better rfl) hnext hrun
      · rename_i next hround
        exact ih hpoint (hP.firstImprovement_holds hpoint hlog hround).2 hrun
    · cases hrun
      exact ⟨hpoint, hlog⟩

theorem randomPoint_holds (hP : Invariant σ s families P) (hlog : HoldsOf P log) :
    (randomPoint s families log : Random σ _).Always fun answer => ∀ drawn log',
      answer = .ok (drawn, log') →
        (∀ point, drawn = .ok point → P point.distributions) ∧ HoldsOf P log' := by
  unfold randomPoint
  refine Random.Always.bind hP.drawn fun drawn hdrawn => ?_
  cases drawn with
  | error e =>
    refine Random.Always.of_pure ?_
    rintro _ _ ⟨⟩
    exact ⟨by rintro _ ⟨⟩, hlog⟩
  | ok distributions =>
    have hpoint := hdrawn distributions rfl
    cases hmeasure : s.measure distributions with
    | error e =>
      simp only [hmeasure]
      exact Random.Always.of_pure (by rintro _ _ ⟨⟩)
    | ok outcome =>
      simp only [hmeasure]
      refine Random.Always.of_pure ?_
      rintro _ _ ⟨⟩
      refine ⟨?_, hlog.append_singleton hpoint⟩
      rintro _ ⟨⟩
      exact hpoint

/-- The first random beliefs have `P`, all of them, and so has the best one. -/
theorem initialPoints_holds (hP : Invariant σ s families P) {n : ℕ} {start : Start α}
    (hbest : ∀ best, start.best = some best → P best.distributions) (hlog : HoldsOf P start.log) :
    (initialPoints s families n start : Random σ _).Always fun answer => ∀ start', answer = .ok start' →
      (∀ best, start'.best = some best → P best.distributions) ∧ HoldsOf P start'.log := by
  induction n generalizing start with
  | zero =>
    refine Random.Always.of_pure ?_
    rintro _ ⟨⟩
    exact ⟨hbest, hlog⟩
  | succ n ih =>
    unfold initialPoints
    refine Random.Always.bind (hP.randomPoint_holds hlog) fun answer hanswer => ?_
    obtain e | ⟨drawn, log'⟩ := answer
    · exact Random.Always.of_pure (by rintro _ ⟨⟩)
    · obtain ⟨hpoint, hlog'⟩ := hanswer drawn log' rfl
      cases drawn with
      | error e => exact ih hbest hlog'
      | ok point =>
        refine ih ?_ hlog'
        rintro _ ⟨⟩
        exact better_holds hbest (hpoint point rfl)

theorem restarts_holds (hP : Invariant σ s families P) {fuel : ℕ} (hbest : P best.distributions)
    (hpoint : P point.distributions) (hlog : HoldsOf P log) :
    (restarts s families fuel best point log : Random σ _).Always fun answer => ∀ best' log',
      answer = .ok (best', log') → P best'.distributions ∧ HoldsOf P log' := by
  have hstop {best : MeasuredBelief α} {log : List (MeasuredBelief α)} (hbest : P best.distributions)
      (hlog : HoldsOf P log) :
      (pure (.ok (best, log)) : Random σ (Except (AnalysisError α) _)).Always fun answer =>
        ∀ best' log', answer = .ok (best', log') → P best'.distributions ∧ HoldsOf P log' := by
    refine Random.Always.of_pure ?_
    rintro _ _ ⟨⟩
    exact ⟨hbest, hlog⟩
  have hbetter {best point : MeasuredBelief α} (hbest : P best.distributions)
      (hpoint : P point.distributions) : P (better (some best) point).distributions :=
    better_holds (by rintro _ ⟨⟩; exact hbest) hpoint
  induction fuel generalizing best point log with
  | zero => exact hstop hbest hlog
  | succ fuel ih =>
    unfold restarts
    by_cases hspent : s.evaluations ≤ log.length
    · rw [if_pos hspent]
      exact hstop hbest hlog
    · rw [if_neg hspent]
      cases hrun : climb s climbRounds point s.initialStep log with
      | error e => exact Random.Always.of_pure (by rintro _ _ ⟨⟩)
      | ok answer =>
        obtain ⟨top, log'⟩ := answer
        obtain ⟨htop, hlog'⟩ := hP.climb_holds hpoint hlog hrun
        have hbest' := hbetter hbest htop
        by_cases hspent' : s.evaluations ≤ log'.length
        · simp only [if_pos hspent']
          exact hstop hbest' hlog'
        · simp only [if_neg hspent']
          refine Random.Always.bind (hP.randomPoint_holds hlog') fun answer hanswer => ?_
          obtain e | ⟨drawn, log''⟩ := answer
          · exact Random.Always.of_pure (by rintro _ _ ⟨⟩)
          · obtain ⟨hfresh, hlog''⟩ := hanswer drawn log'' rfl
            cases drawn with
            | error e => exact hstop hbest' hlog''
            | ok fresh => exact ih (hbetter hbest' (hfresh fresh rfl)) (hfresh fresh rfl) hlog''

/-- Every belief that a search of the families measures has `P`, the best one included. -/
theorem explore_holds (hP : Invariant σ s families P) (initial : ℕ) :
    (explore s initial families : Random σ _).Always fun answer => ∀ best log,
      answer = .ok (best, log) → P best.distributions ∧ HoldsOf P log := by
  have hstarted : (initialPoints s families initial ⟨none, none, []⟩ : Random σ _).Always fun answer =>
      ∀ start, answer = .ok start →
        (∀ best, start.best = some best → P best.distributions) ∧ HoldsOf P start.log :=
    hP.initialPoints_holds (by rintro _ ⟨⟩) (List.forall_mem_nil _)
  unfold explore
  refine Random.Always.bind hstarted fun answer hanswer => ?_
  obtain e | ⟨_ | point, _ | e, log⟩ := answer
  · exact Random.Always.of_pure (by rintro _ _ ⟨⟩)
  · exact Random.Always.of_pure (by rintro _ _ ⟨⟩)
  · exact Random.Always.of_pure (by rintro _ _ ⟨⟩)
  all_goals
    obtain ⟨hbest, hlog⟩ := hanswer _ rfl
    exact hP.restarts_holds (hbest point rfl) (hbest point rfl) hlog

end Invariant

end Invariants

section Beliefs

/-- One admitted distribution per generator, each of its own family. -/
def Admitted (generators : List (ScalarGenerator α)) (families : List Family)
    (distributions : List (Distribution α)) : Prop :=
  List.Forall₂ (fun p d => p.1.Admits p.2 d) (generators.zip families) distributions

variable [LawfulOrder α] [LawfulBounds α] [LawfulRounding α] [LawfulFloor α] [LawfulIntegers α]
  [LawfulNaturals α] [LawfulLimits α] {generators : List (ScalarGenerator α)} {families : List Family}

theorem propose?_admitted (hranges : ∀ g ∈ generators, g.range.IsAccepted)
    (hminimums : ∀ g ∈ generators, 1 ≤ g.policy.minimum) {current distributions : List (Distribution α)}
    {move : ParameterMove} {h : α} (hcurrent : Admitted generators families current)
    (hproposed : propose? generators current move h = some distributions) :
    Admitted generators families distributions := by
  unfold propose? at hproposed
  obtain ⟨g, hg, hproposed⟩ := Option.bind_eq_some_iff.mp hproposed
  obtain ⟨d, hd, hproposed⟩ := Option.bind_eq_some_iff.mp hproposed
  obtain ⟨moved, hmoved, hproposed⟩ := Option.bind_eq_some_iff.mp hproposed
  cases hproposed
  -- A move replaces the distribution of a single generator, by one of the same family.
  obtain ⟨⟨g', f⟩, hpair, hadmits⟩ := hcurrent.exists_of_getElem?_right hd
  obtain rfl : g = g' := Option.some.inj (hg.symm.trans (List.getElem?_zip_eq_some.mp hpair).1)
  have hmem := List.mem_of_getElem? hg
  exact hcurrent.set hpair
    (ScalarGenerator.moved?_admits (hranges g hmem) (hminimums g hmem) hadmits hmoved)

variable [LawfulUniform α]

theorem drawDistributions_admitted {pairs : List (ScalarGenerator α × Family)}
    (hranges : ∀ p ∈ pairs, p.1.range.IsAccepted) (hminimums : ∀ p ∈ pairs, 1 ≤ p.1.policy.minimum) :
    (drawDistributions pairs : Random σ _).Always fun drawn => ∀ distributions, drawn = .ok distributions →
      List.Forall₂ (fun p d => p.1.Admits p.2 d) pairs distributions := by
  induction pairs with
  | nil =>
    refine Random.Always.of_pure ?_
    rintro _ ⟨⟩
    exact .nil
  | cons p pairs ih =>
    obtain ⟨hrange, hranges⟩ := List.forall_mem_cons.mp hranges
    obtain ⟨hminimum, hminimums⟩ := List.forall_mem_cons.mp hminimums
    unfold drawDistributions
    refine Random.Always.bind (ScalarGenerator.drawFamily_admits hrange hminimum p.2) fun drawn hdrawn => ?_
    cases drawn with
    | error e => exact Random.Always.of_pure (by rintro _ ⟨⟩)
    | ok answer =>
      obtain ⟨d, covered⟩ := answer
      refine Random.Always.bind (ih hranges hminimums) fun rest hrest => ?_
      cases rest with
      | error e => exact Random.Always.of_pure (by rintro _ ⟨⟩)
      | ok distributions =>
        refine Random.Always.of_pure ?_
        rintro _ ⟨⟩
        exact .cons (hdrawn d covered rfl) (hrest distributions rfl)

/-- Distributions that a search of families measures are admitted by its generators. -/
theorem admitted_invariant (hranges : ∀ g ∈ generators, g.range.IsAccepted)
    (hminimums : ∀ g ∈ generators, 1 ≤ g.policy.minimum) {s : SearchSetting α} (hs : s.generators = generators) :
    Invariant σ s families (Admitted generators families) := by
  subst hs
  refine ⟨drawDistributions_admitted (fun p hp => ?_) fun p hp => ?_, propose?_admitted hranges hminimums⟩
  · exact hranges p.1 (List.of_mem_zip hp).1
  · exact hminimums p.1 (List.of_mem_zip hp).1

omit [LawfulOrder α] [LawfulBounds α] [LawfulRounding α] [LawfulFloor α] [LawfulIntegers α]
  [LawfulNaturals α] [LawfulLimits α] [LawfulUniform α] in
/-- A search that succeeds has searched all combinations, each with the stream of its place. -/
theorem searchCombination_of_search {build : ProgramBuilder α} {config : SearchConfig α}
    {inference : InferenceConfig} {query : LeakageQuery} {outcomes : List (CombinationOutcome α)}
    (h : search generators build config inference query = .ok outcomes) :
    List.Forall₂ (fun combination c =>
      ((searchCombination (config.setting generators build inference query) config.initial.toNat
        combination.1).run (Xoshiro.ofSeedJumped config.seed combination.2)).1 = .ok c)
      (combinations (generators.map ScalarGenerator.reachableFamilies)).zipIdx outcomes := by
  obtain ⟨-, -, h⟩ := Except.bind_eq_ok_iff.mp h
  exact Except.mapM_eq_ok_iff.mp (Except.ite_throw_bind_eq_ok_iff.mp h).2

/-- A search that succeeds has explored all combinations of families that could cover enough, in the order
of their places, and no others. Whatever it has drawn, moved to or started again from, all beliefs that it
has measured for a combination are of these families, cover enough, and have parameters within bounds. -/
theorem explored_of_search
    (hranges : ∀ g ∈ generators, g.range.IsBuilt)
    (hminimums : ∀ g ∈ generators, 1 ≤ g.policy.minimum) {build : ProgramBuilder α}
    {config : SearchConfig α} {inference : InferenceConfig} {query : LeakageQuery}
    {outcomes : List (CombinationOutcome α)}
    (h : search generators build config inference query = .ok outcomes) :
    (∃ places : List (List ℕ), places.Pairwise (· < ·) ∧
      (∀ p, p ∈ places ↔ ∃ families, Chooses generators p families) ∧
      List.Forall₂ (fun p c => Chooses generators p c.families) places outcomes) ∧
    ∀ i c, outcomes[i]? = some c → ∃ best log,
      ((explore (config.setting generators build inference query) config.initial.toNat c.families).run
        (Xoshiro.ofSeedJumped config.seed i)).1 = .ok (best, log) ∧
      c.best = best.outcome ∧ c.scores = log.map MeasuredBelief.score ∧
      Admitted generators c.families best.distributions ∧
      ∀ b ∈ log, Admitted generators c.families b.distributions := by
  have haccepted (g : ScalarGenerator α) (hg : g ∈ generators) : g.range.IsAccepted :=
    (hranges g hg).isAccepted
  have hsearched := searchCombination_of_search h
  constructor
  · obtain ⟨places, hsorted, hcomplete, hchosen⟩ := combinations_chooses generators
    refine ⟨places, hsorted, hcomplete, ?_⟩
    have hfamilies : combinations (generators.map ScalarGenerator.reachableFamilies) =
        outcomes.map CombinationOutcome.families := by
      rw [← List.zipIdx_map_fst 0 (combinations _), ← List.forall₂_eq_eq_eq, List.forall₂_map_left_iff,
        List.forall₂_map_right_iff]
      refine hsearched.imp fun combination c hc => ?_
      obtain ⟨best, log, -, rfl⟩ := explore_of_searchCombination hc
      rfl
    rwa [hfamilies, List.forall₂_map_right_iff] at hchosen
  · intro i c hc
    obtain ⟨⟨families, j⟩, hcombination, hc⟩ := hsearched.exists_of_getElem?_right hc
    obtain rfl : i = j := by
      obtain ⟨_, -, hpair⟩ := Option.map_eq_some_iff.mp (List.getElem?_zipIdx.symm.trans hcombination)
      cases hpair
      exact (Nat.zero_add i).symm
    obtain ⟨best, log, hexplored, rfl⟩ := explore_of_searchCombination hc
    obtain ⟨hbest, hlog⟩ :=
      (admitted_invariant haccepted hminimums rfl).explore_holds config.initial.toNat _ best log hexplored
    exact ⟨best, log, hexplored, rfl, rfl, hbest, hlog⟩

end Beliefs

section Bias

open Chain InfoFlow.Random

/-- Beliefs about a number between two others, of which only the range is asked for. -/
noncomputable def within (name : String) (families : List Family) (x y : ℝ) : ScalarGenerator Exact :=
  ⟨name, false, families, ⟨.real x, .real y⟩, ⟨1, 0, 1, 1⟩, none, 0⟩

variable {name : String} {families : List Family} {x y : ℝ}

theorem bins_within : (within name families x y).range.bins 1 = [(.real x, .real y)] := by
  simp [within, ValueRange.bins, ValueRange.width]

theorem isAdequate_within {d : Distribution Exact} (hd : d.isDiscrete = false) :
    (within name families x y).isAdequate ((within name families x y).coverage d) = true := by
  have hcovered : (within name families x y).coverage d = 1 := by
    refine (coverage_of_nonpos hd Exact.zero_le_zero).trans ?_
    change ((within name families x y).range.bins 1).length = 1
    rw [bins_within]
    rfl
  exact decide_eq_true hcovered.ge

theorem maxCoverage_within {f : Family} (hf : f.isDiscrete = false)
    (hlower : (Support.ofFamily f).lower < Exact.real y) (hupper : Exact.real x < (Support.ofFamily f).upper) :
    (within name families x y).maxCoverage f = 1 := by
  unfold ScalarGenerator.maxCoverage maxCoverage
  rw [hf, if_neg Bool.false_ne_true]
  change ((within name families x y).range.bins 1).countP _ = 1
  rw [bins_within]
  simp [hlower, hupper]

/-- What is drawn between the smallest positive parameter and a larger number is positive. -/
theorem uniform_positive (h : 819 / 2 ^ 13 < x) :
    (Belief.uniform Belief.minPositive (.real x) : Random σ Exact).Always fun drawn =>
      ∃ z : ℝ, drawn = .real z ∧ 0 < z := by
  rw [Belief.minPositive_eq]
  refine (Belief.uniform_real h).mono ?_
  rintro _ ⟨z, rfl, hz, -⟩
  exact ⟨z, rfl, hz.trans_lt' (by norm_num)⟩

theorem drawDistribution_beta (r : ValueRange Exact) :
    (Belief.drawDistribution .beta r : Random σ _).Always fun drawn =>
      ∃ d values, drawn = some d ∧ Distribution.build .beta values none = .ok d := by
  have hshape : (Belief.uniform Belief.minPositive 40 : Random σ Exact).Always fun x =>
      ∃ y : ℝ, x = .real y ∧ 0 < y := by
    rw [show (40 : Exact) = .real 40 from Exact.ofNat_eq]
    exact uniform_positive (by norm_num)
  refine Always.bind (P := fun values => ∃ x y : ℝ, values = some [.real x, .real y] ∧ 0 < x ∧ 0 < y) ?_ ?_
  · refine Always.bind hshape ?_
    rintro _ ⟨x, rfl, hx⟩
    refine Always.bind hshape ?_
    rintro _ ⟨y, rfl, hy⟩
    exact Always.of_pure ⟨x, y, rfl, hx, hy⟩
  · rintro _ ⟨x, y, rfl, hx, hy⟩
    have hfinite (z : ℝ) : Scalar.isFinite (Exact.real z) = true := Exact.isFinite_iff.mpr ⟨z, rfl⟩
    have hbuild : Distribution.build .beta [Exact.real x, Exact.real y] none =
        .ok (.beta (.real x) (.real y)) := by
      refine Distribution.build_eq_ok_iff.mpr ⟨rfl, fun _ => ?_, rfl⟩
      simp [Family.signature, checkLiteral, hfinite, Exact.zero_eq, hx, hy, pure, Except.pure]
    exact Always.of_pure ⟨_, _, by rw [Option.bind_some, hbuild]; rfl, hbuild⟩

theorem drawDistribution_cauchy {r : ValueRange Exact} (hr : r = ⟨.real x, .real y⟩) (hxy : x < y) :
    (Belief.drawDistribution .cauchy r : Random σ _).Always fun drawn =>
      ∃ d values, drawn = some d ∧ Distribution.build .cauchy values none = .ok d := by
  subst hr
  have hlocation : (Belief.uniform (.real x) (.real y) : Random σ Exact).Always fun z =>
      ∃ w : ℝ, z = .real w := by
    refine (Belief.uniform_real hxy).mono ?_
    rintro _ ⟨w, rfl, -, -⟩
    exact ⟨w, rfl⟩
  have hscale : (Belief.uniform Belief.minPositive 10 : Random σ Exact).Always fun z =>
      ∃ w : ℝ, z = .real w ∧ 0 < w := by
    rw [show (10 : Exact) = .real 10 from Exact.ofNat_eq]
    exact uniform_positive (by norm_num)
  refine Always.bind (P := fun values => ∃ v w : ℝ, values = some [.real v, .real w] ∧ 0 < w) ?_ ?_
  · refine Always.bind hlocation ?_
    rintro _ ⟨v, rfl⟩
    refine Always.bind hscale ?_
    rintro _ ⟨w, rfl, hw⟩
    exact Always.of_pure ⟨v, w, rfl, hw⟩
  · rintro _ ⟨v, w, rfl, hw⟩
    have hfinite (z : ℝ) : Scalar.isFinite (Exact.real z) = true := Exact.isFinite_iff.mpr ⟨z, rfl⟩
    have hbuild : Distribution.build .cauchy [Exact.real v, Exact.real w] none =
        .ok (.cauchy (.real v) (.real w)) := by
      refine Distribution.build_eq_ok_iff.mpr ⟨rfl, fun _ => ?_, rfl⟩
      simp [Family.signature, checkLiteral, hfinite, Exact.zero_eq, hw, pure, Except.pure]
    exact Always.of_pure ⟨_, _, by rw [Option.bind_some, hbuild]; rfl, hbuild⟩

/-- Two families of beliefs about the bias of a coin, and one about the noise in its tosses. -/
noncomputable def noisyCoin : List (ScalarGenerator Exact) :=
  [within "bias" [.beta, .cauchy] 0 1, within "noise" [.cauchy] (-1) 1]

theorem reachableFamilies_noisyCoin : noisyCoin.map ScalarGenerator.reachableFamilies =
    [[.beta, .cauchy], [.cauchy]] := by
  have hbeta : (within "bias" [.beta, .cauchy] 0 1).maxCoverage .beta = 1 :=
    maxCoverage_within rfl (by simp [Support.ofFamily, Exact.zero_eq])
      (by simp [Support.ofFamily, Exact.one_eq])
  have hcauchy (name : String) (families : List Family) (x y : ℝ) :
      (within name families x y).maxCoverage .cauchy = 1 := maxCoverage_within rfl trivial trivial
  have hbias : (within "bias" [.beta, .cauchy] 0 1).reachableFamilies = [.beta, .cauchy] :=
    List.filter_eq_self.mpr (List.forall_mem_cons.mpr ⟨decide_eq_true hbeta.ge,
      List.forall_mem_singleton.mpr (decide_eq_true (hcauchy _ _ _ _).ge)⟩)
  have hnoise : (within "noise" [.cauchy] (-1) 1).reachableFamilies = [.cauchy] :=
    List.filter_eq_self.mpr (List.forall_mem_singleton.mpr (decide_eq_true (hcauchy _ _ _ _).ge))
  rw [noisyCoin, List.map_cons, List.map_singleton, hbias, hnoise]

theorem noisyCoin_neverStalls {families : List Family}
    (h : families = [.beta, .cauchy] ∨ families = [.cauchy, .cauchy]) :
    NeverStalls σ (twelveBeliefs.setting noisyCoin (fun _ => .ok certainCoin) twoDraws aboutSide) families
      AreBuilt := by
  have hcauchy (name : String) (families : List Family) {x y : ℝ} (hxy : x < y) :
      ((within name families x y).drawFamily .cauchy : Random σ _).Always fun drawn => ∃ d covered values,
        drawn = .ok (d, covered) ∧ Distribution.build .cauchy values none = .ok d :=
    drawFamily_of_adequate rfl (drawDistribution_cauchy rfl hxy) fun d hd =>
      isAdequate_within (by rw [Distribution.isDiscrete, hd]; rfl)
  have hbeta : ((within "bias" [.beta, .cauchy] 0 1).drawFamily .beta : Random σ _).Always fun drawn =>
      ∃ d covered values, drawn = .ok (d, covered) ∧ Distribution.build .beta values none = .ok d :=
    drawFamily_of_adequate rfl (drawDistribution_beta _) fun d hd =>
      isAdequate_within (by rw [Distribution.isDiscrete, hd]; rfl)
  refine certainCoin_neverStalls (fun p hp => ?_) twelveBeliefs
  rcases h with rfl | rfl
  · rcases hp with _ | ⟨_, _ | ⟨_, ⟨⟩⟩⟩
    · exact hbeta
    · exact hcauchy _ _ (by norm_num)
  · rcases hp with _ | ⟨_, _ | ⟨_, ⟨⟩⟩⟩
    · exact hcauchy _ _ zero_lt_one
    · exact hcauchy _ _ (by norm_num)

/-- A search of both combinations of families. With four parameters in either of them, a climb makes
eight moves at most: of its twelve beliefs, two are drawn to start with and one to start again. -/
theorem bias_explored :
    (∀ g ∈ noisyCoin, g.range.IsBuilt) ∧ (∀ g ∈ noisyCoin, 1 ≤ g.policy.minimum) ∧
    ∃ outcomes, search noisyCoin (fun _ => .ok certainCoin) twelveBeliefs twoDraws aboutSide = .ok outcomes ∧
      outcomes.map CombinationOutcome.families = [[.beta, .cauchy], [.cauchy, .cauchy]] ∧
      ∀ c ∈ outcomes, c.scores.length = 12 ∧ ∃ log : List (MeasuredBelief Exact),
        c.scores = log.map MeasuredBelief.score ∧ ∀ b ∈ log, Admitted noisyCoin c.families b.distributions := by
  have hranges : ∀ g ∈ noisyCoin, g.range.IsBuilt := by
    rintro g (_ | ⟨_, _ | ⟨_, ⟨⟩⟩⟩)
    · exact ValueRange.isBuilt_real zero_lt_one (by norm_num) (by norm_num)
    · exact ValueRange.isBuilt_real (by norm_num) (by norm_num) (by norm_num)
  have hminimums : ∀ g ∈ noisyCoin, 1 ≤ g.policy.minimum := by
    rintro g (_ | ⟨_, _ | ⟨_, ⟨⟩⟩⟩)
    · exact UInt64.le_refl 1
    · exact UInt64.le_refl 1
  obtain ⟨c, hc, hlength⟩ := searchCombination_spends validate_twelveBeliefs
    (noisyCoin_neverStalls (.inl rfl)) (Xoshiro.ofSeedJumped twelveBeliefs.seed 0)
  obtain ⟨c', hc', hlength'⟩ := searchCombination_spends validate_twelveBeliefs
    (noisyCoin_neverStalls (.inr rfl)) (Xoshiro.ofSeedJumped twelveBeliefs.seed 1)
  have hsearch : search noisyCoin (fun _ => .ok certainCoin) twelveBeliefs twoDraws aboutSide =
      .ok [c, c'] := by
    refine Except.bind_eq_ok_iff.mpr ⟨(), Except.mapError_eq_ok_iff.mpr validate_twelveBeliefs, ?_⟩
    refine Except.ite_throw_bind_eq_ok_iff.mpr ⟨by simp [noisyCoin], Except.mapM_eq_ok_iff.mpr ?_⟩
    rw [reachableFamilies_noisyCoin]
    exact .cons hc (.cons hc' .nil)
  obtain ⟨-, hexplored⟩ := explored_of_search hranges hminimums hsearch
  have hadmitted (i : ℕ) (c'' : CombinationOutcome Exact) (hget : [c, c'][i]? = some c'') :
      ∃ log : List (MeasuredBelief Exact), c''.scores = log.map MeasuredBelief.score ∧
        ∀ b ∈ log, Admitted noisyCoin c''.families b.distributions := by
    obtain ⟨_, log, -, -, hscores, -, hlog⟩ := hexplored i c'' hget
    exact ⟨log, hscores, hlog⟩
  obtain ⟨_, _, -, hfamilies⟩ := explore_of_searchCombination hc
  obtain ⟨_, _, -, hfamilies'⟩ := explore_of_searchCombination hc'
  refine ⟨hranges, hminimums, [c, c'], hsearch, by rw [hfamilies, hfamilies']; rfl, ?_⟩
  rintro c'' (_ | ⟨_, _ | ⟨_, ⟨⟩⟩⟩)
  · exact ⟨hlength, hadmitted 0 c rfl⟩
  · exact ⟨hlength', hadmitted 1 c' rfl⟩

end Bias

end Search

end InfoFlow
