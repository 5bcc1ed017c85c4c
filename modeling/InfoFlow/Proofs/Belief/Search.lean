import InfoFlow.Proofs.Belief.Candidates
import InfoFlow.Proofs.Belief.Moves
import InfoFlow.Proofs.Inference.Recorded
import InfoFlow.Proofs.Leakage.Answers

namespace InfoFlow

variable {α σ : Type} [Scalar α] [RandomWords σ]

namespace Search

/-- The outcome of a belief is what is measured under its distributions. -/
def IsMeasured (s : SearchSetting α) (b : MeasuredBelief α) : Prop :=
  s.measure b.distributions = .ok b.outcome

/-- No leakage that is measured is a NaN. -/
def MeasuresNumbers (s : SearchSetting α) : Prop :=
  ∀ b, IsMeasured s b → Scalar.isNaN b.score = false

/-- From a belief, others have been tried, within the number of evaluations: `top` is the first of those
with the highest leakage. -/
structure Climb (s : SearchSetting α) (point top : MeasuredBelief α)
    (log log' : List (MeasuredBelief α)) : Prop where
  exists_tried : ∃ tried, log' = log ++ tried ∧ (∀ b ∈ tried, IsMeasured s b) ∧
    IsFirstHighest MeasuredBelief.score (point :: tried) top
  length_le : log'.length ≤ s.evaluations

section Climbs

variable {s : SearchSetting α} {log log' log'' : List (MeasuredBelief α)}
  {point top middle : MeasuredBelief α}

namespace Climb

theorem refl (s : SearchSetting α) (point : MeasuredBelief α) (h : log.length ≤ s.evaluations) :
    Climb s point point log log :=
  ⟨⟨[], by simp, by simp, .singleton _ point⟩, h⟩

theorem isMeasured (h : Climb s point top log log') (hpoint : IsMeasured s point) :
    IsMeasured s top := by
  obtain ⟨⟨tried, _, hmeasured, hhighest⟩, _⟩ := h
  rcases List.mem_cons.mp hhighest.mem with rfl | hmem
  · exact hpoint
  · exact hmeasured top hmem

/-- A belief has been tried that is no better. -/
theorem reject (hmiddle : IsMeasured s middle) (h : middle.score ≤ point.score)
    (hlength : log.length < s.evaluations) : Climb s point point log (log ++ [middle]) := by
  refine ⟨⟨[middle], rfl, by simpa using hmiddle, ?_⟩, by simpa using hlength⟩
  exact (IsFirstHighest.singleton _ point).append_le (by simpa using h)

variable [LawfulOrder α]

/-- A better belief has been tried. -/
theorem move (hmiddle : IsMeasured s middle) (h : point.score < middle.score)
    (hlength : log.length < s.evaluations) : Climb s point middle log (log ++ [middle]) := by
  refine ⟨⟨[middle], rfl, by simpa using hmiddle, ?_⟩, by simpa using hlength⟩
  exact (IsFirstHighest.singleton _ point).append_lt h

/-- A climb goes on where another one has ended. -/
theorem trans (h : Climb s point middle log log') (h' : Climb s middle top log' log'') :
    Climb s point top log log'' := by
  obtain ⟨⟨tried, rfl, hmeasured, hhighest⟩, _⟩ := h
  obtain ⟨⟨tried', rfl, hmeasured', hhighest'⟩, hlength⟩ := h'
  exact ⟨⟨tried ++ tried', by simp, List.forall_mem_append.mpr ⟨hmeasured, hmeasured'⟩,
    hhighest.trans hhighest'⟩, hlength⟩

end Climb

variable [LawfulOrder α]

theorem firstImprovement_climb (hnumbers : MeasuresNumbers s) {h : α}
    {moves : List ParameterMove} {moved : Option (MeasuredBelief α)} (hpoint : IsMeasured s point)
    (hlength : log.length ≤ s.evaluations)
    (hrun : firstImprovement s point h moves log = .ok (moved, log')) :
    Climb s point (moved.getD point) log log' := by
  induction moves generalizing log with
  | nil =>
    cases hrun
    exact .refl s point hlength
  | cons move rest ih =>
    unfold firstImprovement at hrun
    by_cases hspent : s.evaluations ≤ log.length
    · rw [if_pos hspent] at hrun
      cases hrun
      exact .refl s point hlength
    · rw [if_neg hspent] at hrun
      cases hproposed : propose? s.generators point.distributions move h with
      | none =>
        rw [hproposed] at hrun
        exact ih hlength hrun
      | some distributions =>
        simp only [hproposed] at hrun
        cases hmeasure : s.measure distributions with
        | error e =>
          rw [hmeasure] at hrun
          cases hrun
        | ok outcome =>
          simp only [hmeasure] at hrun
          have htried : IsMeasured s ⟨distributions, outcome⟩ := hmeasure
          by_cases hbetter : point.score < MeasuredBelief.score ⟨distributions, outcome⟩
          · rw [if_pos hbetter] at hrun
            cases hrun
            exact .move htried hbetter (by omega)
          · rw [if_neg hbetter] at hrun
            have hle := Scalar.le_of_not_lt (hnumbers _ hpoint) (hnumbers _ htried) hbetter
            have hroom : log.length < s.evaluations := by omega
            have hrejected := Climb.reject htried hle hroom
            exact hrejected.trans (ih hrejected.length_le hrun)

/-- A climb ends at the best of the beliefs it has tried, whatever its rounds are. -/
theorem climb_climb (hnumbers : MeasuresNumbers s) {h : α} {fuel : Nat}
    (hpoint : IsMeasured s point) (hlength : log.length ≤ s.evaluations)
    (hrun : climb s fuel point h log = .ok (top, log')) : Climb s point top log log' := by
  induction fuel generalizing point h log with
  | zero =>
    cases hrun
    exact .refl s _ hlength
  | succ fuel ih =>
    unfold climb at hrun
    by_cases hgoing : (log.length < s.evaluations && s.minStep ≤ h) = true
    · rw [if_pos hgoing] at hrun
      cases hround : firstImprovement s point h (movesOf point.distributions) log with
      | error e =>
        rw [hround] at hrun
        cases hrun
      | ok answer =>
        obtain ⟨moved, next⟩ := answer
        have hclimb := firstImprovement_climb hnumbers hpoint hlength hround
        rw [hround] at hrun
        cases moved with
        | none => exact hclimb.trans (ih hpoint hclimb.length_le hrun)
        | some better => exact hclimb.trans (ih (hclimb.isMeasured hpoint) hclimb.length_le hrun)
    · rw [if_neg hgoing] at hrun
      cases hrun
      exact .refl s _ hlength

end Climbs

section Records

/-- The best of all beliefs that have been measured. -/
structure Record (s : SearchSetting α) (log : List (MeasuredBelief α)) (best : MeasuredBelief α) :
    Prop where
  measured : ∀ b ∈ log, IsMeasured s b
  highest : IsFirstHighest MeasuredBelief.score log best

variable {s : SearchSetting α} {log log' : List (MeasuredBelief α)}
  {best point top : MeasuredBelief α}

namespace Record

theorem singleton (hpoint : IsMeasured s point) : Record s [point] point :=
  ⟨by simpa using hpoint, .singleton _ point⟩

variable [LawfulOrder α]

/-- What a climb from a measured belief finds is compared with the best belief so far. -/
theorem better_climb (hnumbers : MeasuresNumbers s) (h : Record s log best) (hpoint : point ∈ log)
    (hclimb : Climb s point top log log') : Record s log' (better (some best) top) := by
  have hbest := hnumbers best (h.measured best h.highest.mem)
  have htop := hnumbers top (hclimb.isMeasured (h.measured point hpoint))
  obtain ⟨⟨tried, rfl, hmeasured, hhighest⟩, _⟩ := hclimb
  refine ⟨List.forall_mem_append.mpr ⟨h.measured, hmeasured⟩, ?_⟩
  unfold better
  by_cases hlt : best.score < top.score
  · simp only [if_pos hlt]
    exact h.highest.append_highest hpoint hhighest hlt
  · simp only [if_neg hlt]
    exact h.highest.append_of_highest_le hhighest (Scalar.le_of_not_lt hbest htop hlt)

/-- A random belief is compared with the best belief so far. -/
theorem better_point (hnumbers : MeasuresNumbers s) (h : Record s log best)
    (hpoint : IsMeasured s point) : Record s (log ++ [point]) (better (some best) point) := by
  refine ⟨List.forall_mem_append.mpr ⟨h.measured, by simpa using hpoint⟩, ?_⟩
  unfold better
  by_cases hlt : best.score < point.score
  · simp only [if_pos hlt]
    exact h.highest.append_lt hlt
  · simp only [if_neg hlt]
    have hle := Scalar.le_of_not_lt (hnumbers best (h.measured best h.highest.mem))
      (hnumbers point hpoint) hlt
    exact h.highest.append_le (by simpa using hle)

end Record

/-- A random belief is measured and logged, unless none is drawn. -/
theorem randomPoint_always (s : SearchSetting α) (families : List Family)
    (log : List (MeasuredBelief α)) :
    (randomPoint s families log : Random σ _).Always fun answer => ∀ drawn log',
      answer = .ok (drawn, log') → (∃ e, drawn = .error e ∧ log' = log) ∨
        ∃ point, drawn = .ok point ∧ log' = log ++ [point] ∧ IsMeasured s point := by
  unfold randomPoint
  refine Random.Always.bind_any fun drawn => ?_
  cases drawn with
  | error e =>
    refine Random.Always.of_pure ?_
    rintro _ _ ⟨⟩
    exact .inl ⟨e, rfl, rfl⟩
  | ok distributions =>
    cases hmeasure : s.measure distributions with
    | error e =>
      simp only [hmeasure]
      exact Random.Always.of_pure nofun
    | ok outcome =>
      simp only [hmeasure]
      refine Random.Always.of_pure ?_
      rintro _ _ ⟨⟩
      exact .inr ⟨_, rfl, rfl, hmeasure⟩

/-- The best of the first random beliefs, if there is one. -/
structure Started (s : SearchSetting α) (n : Nat) (start : Start α) : Prop where
  record : ∀ best, start.best = some best → Record s start.log best
  log_eq_nil : start.best = none → start.log = []
  length_le : start.log.length ≤ n

variable [LawfulOrder α]

theorem initialPoints_always (hnumbers : MeasuresNumbers s) (families : List Family) {n k : Nat}
    {start : Start α} (hstart : Started s k start) :
    (initialPoints s families n start : Random σ _).Always fun answer =>
      ∀ start', answer = .ok start' → Started s (k + n) start' := by
  induction n generalizing k start with
  | zero =>
    refine Random.Always.of_pure ?_
    rintro _ ⟨⟩
    exact hstart
  | succ n ih =>
    unfold initialPoints
    refine Random.Always.bind (randomPoint_always s families start.log) fun answer hanswer => ?_
    match answer with
    | .error e => exact Random.Always.of_pure nofun
    | .ok (drawn, log') =>
      rw [show k + (n + 1) = k + 1 + n by omega]
      rcases hanswer drawn log' rfl with ⟨e, rfl, rfl⟩ | ⟨point, rfl, rfl, hpoint⟩
      · exact ih ⟨hstart.record, hstart.log_eq_nil, hstart.length_le.trans (by omega)⟩
      · refine ih ⟨?_, nofun, by simpa using hstart.length_le⟩
        rintro _ ⟨⟩
        cases hbest : start.best with
        | none =>
          rw [hstart.log_eq_nil hbest]
          exact .singleton hpoint
        | some best => exact (hstart.record best hbest).better_point hnumbers hpoint

/-- Climbing and restarting keep the best of all beliefs, and stay within the evaluations. -/
theorem restarts_always (hnumbers : MeasuresNumbers s) (families : List Family) {fuel : Nat}
    (hrecord : Record s log best) (hpoint : point ∈ log) (hlength : log.length ≤ s.evaluations) :
    (restarts s families fuel best point log : Random σ _).Always fun answer =>
      ∀ best' log', answer = .ok (best', log') →
        Record s log' best' ∧ log'.length ≤ s.evaluations := by
  have hstop {best : MeasuredBelief α} {log : List (MeasuredBelief α)} (hrecord : Record s log best)
      (hlength : log.length ≤ s.evaluations) :
      (pure (.ok (best, log)) : Random σ (Except (AnalysisError α) _)).Always fun answer =>
        ∀ best' log', answer = .ok (best', log') →
          Record s log' best' ∧ log'.length ≤ s.evaluations := by
    refine Random.Always.of_pure ?_
    rintro _ _ ⟨⟩
    exact ⟨hrecord, hlength⟩
  induction fuel generalizing best point log with
  | zero => exact hstop hrecord hlength
  | succ fuel ih =>
    unfold restarts
    by_cases hspent : s.evaluations ≤ log.length
    · rw [if_pos hspent]
      exact hstop hrecord hlength
    · rw [if_neg hspent]
      cases hrun : climb s climbRounds point s.initialStep log with
      | error e => exact Random.Always.of_pure nofun
      | ok answer =>
        obtain ⟨top, log'⟩ := answer
        have hclimb := climb_climb hnumbers (hrecord.measured point hpoint) hlength hrun
        have hrecord' := hrecord.better_climb hnumbers hpoint hclimb
        by_cases hspent' : s.evaluations ≤ log'.length
        · simp only [if_pos hspent']
          exact hstop hrecord' hclimb.length_le
        · simp only [if_neg hspent']
          refine Random.Always.bind (randomPoint_always s families log') fun answer hanswer => ?_
          match answer with
          | .error e => exact Random.Always.of_pure nofun
          | .ok (drawn, log'') =>
            rcases hanswer drawn log'' rfl with ⟨e, rfl, rfl⟩ | ⟨fresh, rfl, rfl, hfresh⟩
            · exact hstop hrecord' hclimb.length_le
            · refine ih (hrecord'.better_point hnumbers hfresh) (by simp) ?_
              rw [List.length_append, List.length_singleton]
              omega

/-- A search that succeeds finds the best of the beliefs it has measured, within its evaluations. -/
theorem explore_always (hnumbers : MeasuresNumbers s) {initial : Nat}
    (hinitial : initial ≤ s.evaluations) (families : List Family) :
    (explore s initial families : Random σ _).Always fun answer => ∀ best log,
      answer = .ok (best, log) → Record s log best ∧ log.length ≤ s.evaluations := by
  have hnone : Started s 0 ⟨none, none, []⟩ := ⟨nofun, fun _ => rfl, Nat.le_refl 0⟩
  unfold explore
  refine Random.Always.bind (initialPoints_always hnumbers families hnone) fun answer hanswer => ?_
  match answer with
  | .error e => exact Random.Always.of_pure nofun
  | .ok start =>
    have hstarted := hanswer start rfl
    obtain ⟨best, failure, log⟩ := start
    match best, failure with
    | some point, _ =>
      have hrecord := hstarted.record point rfl
      exact restarts_always hnumbers families hrecord hrecord.highest.mem
        (hstarted.length_le.trans (by omega))
    | none, some e => exact Random.Always.of_pure nofun
    | none, none => exact Random.Always.of_pure nofun

end Records

section Spending

/-- A search that asks for a belief gets one with `P`, which is measured, and moves keep `P`. -/
structure NeverStalls (σ : Type) [RandomWords σ] (s : SearchSetting α) (families : List Family)
    (P : List (Distribution α) → Prop) : Prop where
  drawn : (drawDistributions (s.generators.zip families) : Random σ _).Always fun drawn =>
    ∃ distributions, drawn = .ok distributions ∧ P distributions
  moved : ∀ {current distributions : List (Distribution α)} {move : ParameterMove} {h : α}, P current →
    propose? s.generators current move h = some distributions → P distributions
  measured : ∀ {distributions : List (Distribution α)}, P distributions →
    ∃ outcome, s.measure distributions = .ok outcome

variable {s : SearchSetting α} {families : List Family} {P : List (Distribution α) → Prop}
  {log : List (MeasuredBelief α)} {best point : MeasuredBelief α}

theorem better_holds {best : Option (MeasuredBelief α)} (hbest : ∀ b, best = some b → P b.distributions)
    (hpoint : P point.distributions) : P (better best point).distributions := by
  unfold better
  split
  · split
    · exact hpoint
    · exact hbest _ rfl
  · exact hpoint

namespace NeverStalls

theorem firstImprovement_ok (hs : NeverStalls σ s families P) (h : α) (moves : List ParameterMove)
    (log : List (MeasuredBelief α)) (hpoint : P point.distributions) :
    ∃ moved log', firstImprovement s point h moves log = .ok (moved, log') ∧
      log.length ≤ log'.length ∧ ∀ better, moved = some better → P better.distributions := by
  induction moves generalizing log with
  | nil => exact ⟨none, log, rfl, le_rfl, nofun⟩
  | cons move rest ih =>
    unfold firstImprovement
    split
    · exact ⟨none, log, rfl, le_rfl, nofun⟩
    · cases hproposed : propose? s.generators point.distributions move h with
      | none => exact ih log
      | some distributions =>
        have htried : P distributions := hs.moved hpoint hproposed
        obtain ⟨outcome, houtcome⟩ := hs.measured htried
        simp only [houtcome]
        split
        · refine ⟨_, _, rfl, by simp, ?_⟩
          rintro _ ⟨⟩
          exact htried
        · obtain ⟨moved, log', hrun, hlength, hmoved⟩ := ih (log ++ [⟨distributions, outcome⟩])
          exact ⟨moved, log', hrun, le_trans (by simp) hlength, hmoved⟩

theorem climb_ok (hs : NeverStalls σ s families P) (fuel : Nat) (h : α) (log : List (MeasuredBelief α))
    (hpoint : P point.distributions) :
    ∃ top log', climb s fuel point h log = .ok (top, log') ∧ log.length ≤ log'.length := by
  induction fuel generalizing point h log with
  | zero => exact ⟨point, log, rfl, le_rfl⟩
  | succ fuel ih =>
    unfold climb
    split
    · obtain ⟨moved, log', hround, hlength, hmoved⟩ :=
        hs.firstImprovement_ok h (movesOf point.distributions) log hpoint
      rw [hround]
      cases moved with
      | none =>
        obtain ⟨top, log'', hrun, hlength'⟩ := ih (h / 2) log' hpoint
        exact ⟨top, log'', hrun, hlength.trans hlength'⟩
      | some better =>
        obtain ⟨top, log'', hrun, hlength'⟩ := ih h log' (hmoved better rfl)
        exact ⟨top, log'', hrun, hlength.trans hlength'⟩
    · exact ⟨point, log, rfl, le_rfl⟩

theorem randomPoint_ok (hs : NeverStalls σ s families P) (log : List (MeasuredBelief α)) :
    (randomPoint s families log : Random σ _).Always fun answer => ∃ point,
      answer = .ok (.ok point, log ++ [point]) ∧ P point.distributions := by
  unfold randomPoint
  refine Random.Always.bind hs.drawn ?_
  rintro _ ⟨distributions, rfl, hdrawn⟩
  obtain ⟨outcome, houtcome⟩ := hs.measured hdrawn
  simp only [houtcome]
  exact Random.Always.of_pure ⟨_, rfl, hdrawn⟩

theorem initialPoints_ok (hs : NeverStalls σ s families P) {n : Nat} (start : Start α)
    (hbest : ∀ best, start.best = some best → P best.distributions)
    (hsome : start.best ≠ none ∨ 0 < n) :
    (initialPoints s families n start : Random σ _).Always fun answer => ∃ start' best,
      answer = .ok start' ∧ start'.best = some best ∧ P best.distributions := by
  induction n generalizing start with
  | zero =>
    obtain ⟨best, hstart⟩ := Option.ne_none_iff_exists'.mp (hsome.resolve_right (lt_irrefl 0))
    exact Random.Always.of_pure ⟨start, best, rfl, hstart, hbest best hstart⟩
  | succ n ih =>
    unfold initialPoints
    refine Random.Always.bind (hs.randomPoint_ok start.log) ?_
    rintro _ ⟨point, rfl, hpoint⟩
    refine ih _ ?_ (.inl (Option.some_ne_none _))
    rintro _ ⟨⟩
    exact better_holds hbest hpoint

/-- With as many rounds as evaluations that are left, all of them are spent: every round starts with a
random belief, even if no move from it is tried. -/
theorem restarts_spend (hs : NeverStalls σ s families P) {fuel : Nat} (hpoint : P point.distributions)
    (hfuel : s.evaluations ≤ log.length + fuel) :
    (restarts s families fuel best point log : Random σ _).Always fun answer => ∃ best' log',
      answer = .ok (best', log') ∧ s.evaluations ≤ log'.length := by
  induction fuel generalizing best point log with
  | zero => exact Random.Always.of_pure ⟨best, log, rfl, hfuel⟩
  | succ fuel ih =>
    unfold restarts
    split
    · rename_i hspent
      exact Random.Always.of_pure ⟨best, log, rfl, hspent⟩
    · obtain ⟨top, log', hclimb, hlength⟩ := hs.climb_ok climbRounds s.initialStep log hpoint
      rw [hclimb]
      dsimp only
      split
      · rename_i hspent
        exact Random.Always.of_pure ⟨_, log', rfl, hspent⟩
      · refine Random.Always.bind (hs.randomPoint_ok log') ?_
        rintro _ ⟨fresh, rfl, hfresh⟩
        refine ih hfresh ?_
        rw [List.length_append, List.length_singleton]
        omega

theorem explore_spends (hs : NeverStalls σ s families P) {initial : Nat} (hinitial : 0 < initial) :
    (explore s initial families : Random σ _).Always fun answer => ∃ best log,
      answer = .ok (best, log) ∧ s.evaluations ≤ log.length := by
  unfold explore
  refine Random.Always.bind (hs.initialPoints_ok ⟨none, none, []⟩ nofun (.inr hinitial)) ?_
  rintro _ ⟨start, point, rfl, hbest, hpoint⟩
  simp only [hbest]
  exact hs.restarts_spend hpoint (Nat.le_add_left _ _)

end NeverStalls

end Spending

section Coin

open Chain Trace InfoFlow.Random

/-- Beliefs about how often a coin falls on one side, of any coverage. -/
noncomputable def anyBias : ScalarGenerator Exact :=
  ⟨"coin", true, [.bernoulli], ⟨0, 1⟩, ⟨0, 1e-4, 1, 1⟩, none, 0⟩

theorem drawDistribution_bernoulli (r : ValueRange Exact) :
    (Belief.drawDistribution .bernoulli r : Random σ _).Always fun drawn =>
      ∃ d values, drawn = some d ∧ Distribution.build .bernoulli values none = .ok d := by
  have hends : (0.001 : ℝ) < 0.99 := by norm_num
  have hprobability : (Belief.uniform Belief.minProbability Belief.maxProbability :
      Random σ Exact).Always fun x => ∃ y, x = .real y ∧ 0.001 ≤ y ∧ y ≤ 0.99 := by
    unfold Belief.uniform
    rw [Belief.minProbability_eq, Belief.maxProbability_eq, if_pos (Exact.real_lt.mpr hends)]
    exact closed_draw_mem hends
  refine Always.bind (P := fun values => ∃ y : ℝ, values = some [.real y] ∧ 0 ≤ y ∧ y ≤ 1) ?_ ?_
  · refine Always.bind hprobability ?_
    rintro _ ⟨y, rfl, hlow, hhigh⟩
    exact Always.of_pure ⟨y, rfl, by linarith, by linarith⟩
  · rintro _ ⟨y, rfl, hlow, hhigh⟩
    have hfinite : Scalar.isFinite (Exact.real y) = true := Exact.isFinite_iff.mpr ⟨y, rfl⟩
    have hbuild : Distribution.build .bernoulli [Exact.real y] none = .ok (.bernoulli (.real y)) := by
      refine Distribution.build_eq_ok_iff.mpr ⟨rfl, fun _ => ?_, rfl⟩
      simp [Family.signature, checkLiteral, hfinite, Exact.zero_eq, Exact.one_eq, hlow, hhigh, pure,
        Except.pure]
    exact Always.of_pure ⟨_, [.real y], by rw [Option.bind_some, hbuild]; rfl, hbuild⟩

/-- If whatever is drawn covers enough, a single attempt is enough. -/
theorem drawFamily_of_adequate {g : ScalarGenerator Exact} {f : Family} (hattempts : g.policy.maxAttempts = 1)
    (hdraw : (Belief.drawDistribution f g.range : Random σ _).Always fun drawn => ∃ d values,
      drawn = some d ∧ Distribution.build f values none = .ok d)
    (hadequate : ∀ d : Distribution Exact, d.family = f → g.isAdequate (g.coverage d) = true) :
    (g.drawFamily f : Random σ _).Always fun drawn => ∃ d covered values, drawn = .ok (d, covered) ∧
      Distribution.build f values none = .ok d := by
  unfold ScalarGenerator.drawFamily
  rw [hattempts]
  change (g.drawFrom (pure (some f)) 1 0 : Random σ _).Always _
  unfold ScalarGenerator.drawFrom
  refine Always.bind (P := fun picked => picked = some f) (Always.of_pure rfl) ?_
  rintro _ rfl
  refine Always.bind hdraw ?_
  rintro _ ⟨d, values, rfl, hbuild⟩
  simp only [hadequate d (Distribution.family_of_build hbuild), if_true]
  exact Always.of_pure ⟨d, _, values, rfl, hbuild⟩

theorem anyBias_drawFamily : (anyBias.drawFamily .bernoulli : Random σ _).Always fun drawn =>
    ∃ d covered values, drawn = .ok (d, covered) ∧
      Distribution.build .bernoulli values none = .ok d :=
  drawFamily_of_adequate rfl (drawDistribution_bernoulli anyBias.range)
    fun _ _ => decide_eq_true (Nat.zero_le _)

/-- A run of two draws. -/
def twoDraws : InferenceConfig := { sampleCount := 2, chains := 1, tune := 0 }

/-- What the side that a coin shows reveals about the coin. -/
def aboutSide : LeakageQuery :=
  ⟨["coin"], ["side"], { neighbors := 1, minSamples := 1 }, .mutualInformation⟩

theorem certainCoin_infer : ∃ run, infer certainCoinModel twoDraws =
    .ok (Trace.ofRuns certainCoinModel true [run]) ∧ run.draws.length = 2 := by
  have hstart : ((Chain.init certainCoinModel 0 twoDraws.maxInitAttempts.toNat).run :
      Random Xoshiro _).Always fun started => ∃ c, started = .ok (some c) :=
    (certainCoin_init 0 999).mono fun started ⟨c, hc, _⟩ => ⟨c, hc⟩
  obtain ⟨run, hrun, hlength⟩ :=
    markovChain_length (show twoDraws.tune = 0 from rfl) hstart none (Xoshiro.ofSeedJumped 0 0)
  refine ⟨run, ?_, hlength⟩
  refine Except.bind_eq_ok_iff.mpr ⟨(), rfl, Except.bind_eq_ok_iff.mpr ⟨[run], ?_, rfl⟩⟩
  exact Except.mapM_eq_ok_iff.mpr (.cons hrun .nil)

theorem certainCoin_leakage {run : ChainRun Exact} (hdraws : run.draws.length = 2) :
    ∃ report, (Trace.ofRuns certainCoinModel true [run]).leakage aboutSide = pure report := by
  have hside : Selector.isName "side".toList = true := by
    unfold Selector.isName Selector.isNameStart Selector.isNamePart Text.isAlphanumeric
      Text.isAlphabetic Text.isNumeric
    simp only [Text.inRanges_eq]
    decide +kernel
  have hcoin := Selector.parse?_name (isName_twoThrows "coin" (by simp))
  obtain ⟨output, houtput, hsize⟩ : ∃ output : Samples Exact,
      (Trace.ofRuns certainCoinModel true [run]).queriedOutput ["side"] = pure output ∧
        output.size = 2 := by
    unfold queriedOutput samples
    simp only [List.mapM_cons, List.mapM_nil, Selector.parse?_name hside]
    refine ⟨_, rfl, ?_⟩
    simp [Samples.size, Matrix.size, Matrix.ofLists, hdraws]
  obtain ⟨secret, hsecret, hsize'⟩ : ∃ secret,
      (Trace.ofRuns certainCoinModel true [run]).queriedSecret "coin" = pure secret ∧
        secret.samples.size = 2 := by
    unfold queriedSecret samples
    rw [hcoin]
    refine ⟨_, rfl, ?_⟩
    simp [Samples.size, Matrix.size, Matrix.ofLists, hdraws]
  obtain ⟨entry, hentry⟩ : ∃ entry, reportEntry aboutSide output secret = .ok entry := by
    have hsizes : checkSizes secret.samples.size output.size aboutSide.params = .ok () := by
      rw [hsize, hsize']
      rfl
    cases hreachable : secret.isReachable with
    | true =>
      exact ⟨_, Except.bind_eq_ok_iff.mpr
        ⟨(), hsizes, by simp only [aboutSide, hreachable]; rfl⟩⟩
    | false =>
      exact ⟨_, Except.bind_eq_ok_iff.mpr
        ⟨(), hsizes, by simp only [aboutSide, hreachable]; rfl⟩⟩
  refine ⟨_, leakage_eq_pure_iff.mpr ⟨by simp [aboutSide], by simp [aboutSide], rfl, output, [secret],
    [entry], houtput, .cons hsecret .nil, ?_, rfl⟩⟩
  rw [List.mergeSort_singleton]
  exact .cons hentry .nil

theorem certainCoin_measured (candidate : Candidate Exact) : ∃ outcome,
    measureCandidate (fun _ => .ok certainCoin) twoDraws aboutSide candidate = .ok outcome := by
  obtain ⟨run, hinfer, hdraws⟩ := certainCoin_infer
  obtain ⟨report, hreport⟩ := certainCoin_leakage hdraws
  have hanswer : answer (Trace.ofRuns certainCoinModel true [run]) aboutSide = .ok report := by
    unfold answer
    rw [hreport]
    rfl
  refine ⟨⟨candidate, report⟩, Except.bind_eq_ok_iff.mpr ⟨certainCoin, rfl, ?_⟩⟩
  refine Except.bind_eq_ok_iff.mpr ⟨certainCoinModel, by rw [certainCoin_compile]; rfl, ?_⟩
  refine Except.bind_eq_ok_iff.mpr ⟨_, by rw [hinfer]; rfl, ?_⟩
  exact Except.bind_eq_ok_iff.mpr ⟨report, hanswer, rfl⟩

/-- The distributions are built from parameters that are in order. -/
def AreBuilt (distributions : List (Distribution Exact)) : Prop :=
  ∀ d ∈ distributions, ∃ f values, Distribution.build f values none = .ok d

theorem certainCoin_outcome (generators : List (ScalarGenerator Exact))
    {distributions : List (Distribution Exact)} (h : AreBuilt distributions) : ∃ outcome,
      measureDistributions generators (fun _ => .ok certainCoin) twoDraws aboutSide distributions =
        .ok outcome := by
  obtain ⟨declared, hdeclared⟩ : ∃ declared, (generators.zip distributions).mapM (fun (g, d) =>
      (Variable.ofDistribution g.name d 1).mapError
        (AnalysisError.belief (α := Exact) ∘ .invalidParameter)) = .ok declared := by
    refine ⟨(generators.zip distributions).map fun p =>
      ⟨p.1.name, p.2.family, p.2.parameterValues.map .value, .scalar, false⟩,
      Except.mapM_eq_ok_map fun p hp => ?_⟩
    obtain ⟨f, values, hbuild⟩ := h p.2 (List.of_mem_zip hp).2
    exact Except.mapError_eq_ok_iff.mpr (Variable.ofDistribution_eq (Distribution.build_parameterValues hbuild)
      (Distribution.family_ne_categorical hbuild) p.1.name 1)
  obtain ⟨outcome, hmeasured⟩ := certainCoin_measured
    ⟨declared, ((generators.zip distributions).map fun (g, d) => g.coverage d).min?.getD 0⟩
  exact ⟨outcome, Except.bind_eq_ok_iff.mpr ⟨declared, hdeclared, hmeasured⟩⟩

theorem exists_build_of_moved? {g : ScalarGenerator Exact} {d moved : Distribution Exact} {p : Nat}
    {isUp : Bool} {h : Exact} (hmoved : moved? g d p isUp h = some moved) :
    ∃ f values, Distribution.build f values none = .ok moved := by
  unfold moved? at hmoved
  obtain ⟨move, -, hmoved⟩ := Option.bind_eq_some_iff.mp hmoved
  obtain ⟨value, -, hmoved⟩ := Option.bind_eq_some_iff.mp hmoved
  dsimp only at hmoved
  split at hmoved
  · cases hmoved
  · obtain ⟨built, hbuilt, hmoved⟩ := Option.bind_eq_some_iff.mp hmoved
    split at hmoved
    · cases hmoved
      exact ⟨_, _, Except.toOption_eq_some_iff.mp hbuilt⟩
    · cases hmoved

/-- A move builds the distribution that it leads to. -/
theorem AreBuilt.propose? {generators : List (ScalarGenerator Exact)}
    {current distributions : List (Distribution Exact)} {move : ParameterMove} {h : Exact}
    (hcurrent : AreBuilt current) (hproposed : propose? generators current move h = some distributions) :
    AreBuilt distributions := by
  unfold Search.propose? at hproposed
  obtain ⟨g, -, hproposed⟩ := Option.bind_eq_some_iff.mp hproposed
  obtain ⟨d, -, hproposed⟩ := Option.bind_eq_some_iff.mp hproposed
  obtain ⟨moved, hmoved, hproposed⟩ := Option.bind_eq_some_iff.mp hproposed
  cases hproposed
  intro e he
  rcases List.mem_or_eq_of_mem_set he with he | rfl
  · exact hcurrent e he
  · exact exists_build_of_moved? hmoved

theorem drawDistributions_built {pairs : List (ScalarGenerator Exact × Family)}
    (hdraws : ∀ p ∈ pairs, (p.1.drawFamily p.2 : Random σ _).Always fun drawn => ∃ d covered values,
      drawn = .ok (d, covered) ∧ Distribution.build p.2 values none = .ok d) :
    (drawDistributions pairs : Random σ _).Always fun drawn => ∃ distributions,
      drawn = .ok distributions ∧ AreBuilt distributions := by
  induction pairs with
  | nil => exact Always.of_pure ⟨[], rfl, List.forall_mem_nil _⟩
  | cons p pairs ih =>
    obtain ⟨hfirst, hrest⟩ := List.forall_mem_cons.mp hdraws
    unfold drawDistributions
    refine Always.bind hfirst ?_
    rintro _ ⟨d, covered, values, rfl, hbuild⟩
    refine Always.bind (ih hrest) ?_
    rintro _ ⟨distributions, rfl, hbuilt⟩
    exact Always.of_pure ⟨_, rfl, List.forall_mem_cons.mpr ⟨⟨_, values, hbuild⟩, hbuilt⟩⟩

/-- Searches for the belief under which the side of a coin reveals the most about the coin, if all that
is drawn covers enough. -/
theorem certainCoin_neverStalls {generators : List (ScalarGenerator Exact)} {families : List Family}
    (hdraws : ∀ p ∈ generators.zip families, (p.1.drawFamily p.2 : Random σ _).Always fun drawn =>
      ∃ d covered values, drawn = .ok (d, covered) ∧ Distribution.build p.2 values none = .ok d)
    (config : SearchConfig Exact) :
    NeverStalls σ (config.setting generators (fun _ => .ok certainCoin) twoDraws aboutSide) families
      AreBuilt where
  drawn := drawDistributions_built hdraws
  moved := AreBuilt.propose?
  measured := certainCoin_outcome generators

/-- Two random beliefs to start with and twelve evaluations, with a step that is not halved. -/
noncomputable def twelveBeliefs : SearchConfig Exact := ⟨2, 12, 1, 1, 1, 0⟩

theorem validate_twelveBeliefs : twelveBeliefs.validate = .ok () := by
  simp [SearchConfig.validate, twelveBeliefs, Exact.zero_eq, Exact.one_eq, pure, Except.pure]

end Coin

section Leakage

variable [LawfulOrder α] [LawfulUnits α]

theorem isNaN_of_measureCandidate {build : ProgramBuilder α} {config : InferenceConfig}
    {query : LeakageQuery} {candidate : Candidate α} {outcome : Outcome α}
    (h : measureCandidate build config query candidate = .ok outcome) :
    Scalar.isNaN outcome.score = false := by
  obtain ⟨_, _, h⟩ := Except.bind_eq_ok_iff.mp h
  obtain ⟨_, _, h⟩ := Except.bind_eq_ok_iff.mp h
  obtain ⟨t, _, h⟩ := Except.bind_eq_ok_iff.mp h
  obtain ⟨report, hanswer, h⟩ := Except.bind_eq_ok_iff.mp h
  cases h
  have hleakage : t.leakage query = pure report := by
    unfold answer at hanswer
    split at hanswer
    · rename_i found hfound
      cases hanswer
      exact hfound
    · cases hanswer
    · cases hanswer
  exact LeakageReport.isNaN_highestScore (Trace.isNaN_of_leakage hleakage)

theorem measuresNumbers_setting (config : SearchConfig α) (generators : List (ScalarGenerator α))
    (build : ProgramBuilder α) (inference : InferenceConfig) (query : LeakageQuery) :
    MeasuresNumbers (config.setting generators build inference query) := by
  intro b hb
  obtain ⟨_, _, hb⟩ := Except.bind_eq_ok_iff.mp hb
  exact isNaN_of_measureCandidate hb

omit [LawfulOrder α] [LawfulUnits α] in
theorem initial_pos {config : SearchConfig α} (h : config.validate = .ok ()) :
    0 < config.initial.toNat := by
  obtain ⟨hinitial, _⟩ := Except.ite_throw_bind_eq_ok_iff.mp h
  exact Nat.pos_of_ne_zero fun hzero => hinitial (UInt64.toNat_inj.mp hzero)

omit [LawfulOrder α] [LawfulUnits α] in
theorem initial_le_evaluations {config : SearchConfig α} (h : config.validate = .ok ()) :
    config.initial.toNat ≤ config.evaluations.toNat := by
  obtain ⟨_, h⟩ := Except.ite_throw_bind_eq_ok_iff.mp h
  obtain ⟨hnot, _⟩ := Except.ite_throw_bind_eq_ok_iff.mp h
  exact UInt64.not_lt.mp hnot

omit [LawfulOrder α] [LawfulUnits α] in
/-- What is reported of a combination is what has been explored. -/
theorem explore_of_searchCombination {s : SearchSetting α} {initial : Nat} {families : List Family}
    {words : σ} {c : CombinationOutcome α}
    (h : ((searchCombination s initial families).run words).1 = .ok c) : ∃ best log,
      ((explore s initial families).run words).1 = .ok (best, log) ∧
        c = ⟨families, best.outcome, log.map MeasuredBelief.score⟩ := by
  have h : ((explore s initial families).run words).1.map (fun found =>
      ⟨families, found.1.outcome, found.2.map MeasuredBelief.score⟩) = .ok c := h
  cases hexplored : ((explore s initial families).run words).1 with
  | error e =>
    rw [hexplored] at h
    cases h
  | ok found =>
    rw [hexplored] at h
    cases h
    exact ⟨found.1, found.2, rfl, rfl⟩

/-- A search of a combination that succeeds has measured at least one belief, and no more than it may.
Its best score is the highest one, and its best belief is the first with this score of all that it has
measured, in their order. -/
theorem best_of_searchCombination {config : SearchConfig α} (hvalid : config.validate = .ok ())
    {generators : List (ScalarGenerator α)} {build : ProgramBuilder α} {inference : InferenceConfig}
    {query : LeakageQuery} {families : List Family} {words : σ} {c : CombinationOutcome α}
    (h : ((searchCombination (config.setting generators build inference query)
      config.initial.toNat families).run words).1 = .ok c) :
    (1 ≤ c.scores.length ∧ c.scores.length ≤ config.evaluations.toNat) ∧
    (c.best.score ∈ c.scores ∧ ∀ score ∈ c.scores, score ≤ c.best.score) ∧
    ∃ best log,
      ((explore (config.setting generators build inference query) config.initial.toNat
        families).run words).1 = .ok (best, log) ∧
      (∀ b ∈ log, measureDistributions generators build inference query b.distributions =
        .ok b.outcome) ∧
      c.families = families ∧ c.best = best.outcome ∧ c.scores = log.map MeasuredBelief.score ∧
      IsFirstHighest MeasuredBelief.score log best := by
  have hnumbers := measuresNumbers_setting config generators build inference query
  obtain ⟨best, log, hexplored, rfl⟩ := explore_of_searchCombination h
  obtain ⟨⟨hmeasured, hhighest⟩, hlength⟩ := explore_always hnumbers
    (initial_le_evaluations hvalid) families words best log hexplored
  have hbest := hnumbers best (hmeasured best hhighest.mem)
  refine ⟨⟨?_, (List.length_map _).trans_le hlength⟩, ⟨List.mem_map_of_mem hhighest.mem, ?_⟩,
    best, log, hexplored, hmeasured, rfl, rfl, rfl, hhighest⟩
  · rw [List.length_map]
    exact List.length_pos_of_mem hhighest.mem
  · exact List.forall_mem_map.mpr fun b hb => hhighest.le_of_mem hbest hb

/-- A search that is never out of beliefs spends all of its evaluations. -/
theorem searchCombination_spends {config : SearchConfig α} (hvalid : config.validate = .ok ())
    {generators : List (ScalarGenerator α)} {build : ProgramBuilder α} {inference : InferenceConfig}
    {query : LeakageQuery} {families : List Family} {P : List (Distribution α) → Prop}
    (hs : NeverStalls σ (config.setting generators build inference query) families P) :
    (searchCombination (config.setting generators build inference query) config.initial.toNat families :
      Random σ _).Always fun answer => ∃ c, answer = .ok c ∧
        c.scores.length = config.evaluations.toNat := by
  intro words
  obtain ⟨best, log, hexplored, hspent⟩ := hs.explore_spends (initial_pos hvalid) words
  have hlength := (explore_always (measuresNumbers_setting config generators build inference query)
    (initial_le_evaluations hvalid) families words best log hexplored).2
  refine ⟨⟨families, best.outcome, log.map MeasuredBelief.score⟩, ?_, ?_⟩
  · exact congrArg (Except.map fun found : MeasuredBelief α × List (MeasuredBelief α) =>
      CombinationOutcome.mk families found.1.outcome (found.2.map MeasuredBelief.score)) hexplored
  · exact (List.length_map _).trans (hlength.antisymm hspent)

/-- The bias of a coin has a single parameter, so that a climb makes two moves at most: of the twelve
beliefs, the search has started again from several. -/
theorem coinSearch_best : twelveBeliefs.validate = .ok () ∧ ∃ c : CombinationOutcome Exact,
    ((searchCombination (twelveBeliefs.setting [anyBias] (fun _ => .ok Chain.certainCoin) twoDraws
      aboutSide) twelveBeliefs.initial.toNat [.bernoulli]).run (Xoshiro.ofSeed 0)).1 = .ok c ∧
    c.scores.length = 12 ∧ c.best.score ∈ c.scores ∧ (∀ score ∈ c.scores, score ≤ c.best.score) := by
  have hstalls : NeverStalls Xoshiro (twelveBeliefs.setting [anyBias] (fun _ => .ok Chain.certainCoin)
      twoDraws aboutSide) [.bernoulli] AreBuilt := by
    refine certainCoin_neverStalls ?_ twelveBeliefs
    rintro p (_ | ⟨_, ⟨⟩⟩)
    exact anyBias_drawFamily
  obtain ⟨c, hc, hlength⟩ := searchCombination_spends validate_twelveBeliefs hstalls (Xoshiro.ofSeed 0)
  obtain ⟨-, ⟨hmem, hhighest⟩, -⟩ := best_of_searchCombination validate_twelveBeliefs hc
  exact ⟨validate_twelveBeliefs, c, hc, hlength, hmem, hhighest⟩

end Leakage

end Search

end InfoFlow
