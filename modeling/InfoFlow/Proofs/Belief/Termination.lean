import InfoFlow.Proofs.Belief.Explored
import InfoFlow.Proofs.Scalar.Halving

namespace InfoFlow

open InfoFlow.Random

theorem Random.run_bind {σ β γ : Type} {x : Random σ β} {f : β → Random σ γ} {words words' : σ} {b : β}
    (h : x.run words = (b, words')) : (x >>= f).run words = (f b).run words' := by
  change (f (x.run words).1).run (x.run words).2 = _
  rw [h]

namespace Search

/-- Some rounds of a loop, one after the other. -/
inductive InRounds {τ : Type} (round : τ → τ → Prop) : ℕ → τ → τ → Prop
  | none (t : τ) : InRounds round 0 t t
  | next {n : ℕ} {t u v : τ} (hround : round t u) (hrest : InRounds round n u v) : InRounds round (n + 1) t v

section Climbs

/-- Where a climb is: its belief, its step and all scores so far. -/
structure ClimbState (α : Type) where
  point : MeasuredBelief α
  step : α
  log : List (MeasuredBelief α)

variable {α : Type} [Scalar α]

/-- Evaluations are left, and the step is not below the least one. -/
structure ClimbState.GoesOn (s : SearchSetting α) (c : ClimbState α) : Prop where
  room : c.log.length < s.evaluations
  step_ge : s.minStep ≤ c.step

/-- A round of a climb: to a better belief, or to half of the step if no move leads to one. -/
inductive Round (s : SearchSetting α) (c : ClimbState α) : ClimbState α → Prop
  | moved {better : MeasuredBelief α} {log : List (MeasuredBelief α)} (hgoing : c.GoesOn s)
      (htried : firstImprovement s c.point c.step (movesOf c.point.distributions) c.log =
        .ok (some better, log)) : Round s c ⟨better, c.step, log⟩
  | halved {log : List (MeasuredBelief α)} (hgoing : c.GoesOn s)
      (htried : firstImprovement s c.point c.step (movesOf c.point.distributions) c.log =
        .ok (none, log)) : Round s c ⟨c.point, c.step / 2, log⟩

/-- After no more than some halvings a step is below the least one. -/
def PassesWithin (least : α) : ℕ → α → Prop
  | 0, h => ¬ least ≤ h
  | n + 1, h => ¬ least ≤ h ∨ PassesWithin least n (h / 2)

variable {s : SearchSetting α} {c c' : ClimbState α} {n k : ℕ} {h : α} {point : MeasuredBelief α}
  {moves : List ParameterMove} {moved : Option (MeasuredBelief α)} {log log' : List (MeasuredBelief α)}

/-- Moves that are tried are logged, as long as evaluations are left; one that is taken has been tried. -/
theorem length_of_firstImprovement (hlength : log.length ≤ s.evaluations)
    (hrun : firstImprovement s point h moves log = .ok (moved, log')) :
    log.length ≤ log'.length ∧ log'.length ≤ s.evaluations ∧
      (moved.isSome = true → log.length < log'.length) := by
  induction moves generalizing log with
  | nil =>
    cases hrun
    exact ⟨le_rfl, hlength, nofun⟩
  | cons move rest ih =>
    unfold firstImprovement at hrun
    split at hrun
    · cases hrun
      exact ⟨le_rfl, hlength, nofun⟩
    · rename_i hroom
      split at hrun
      · exact ih hlength hrun
      · rename_i distributions _
        split at hrun
        · cases hrun
        · rename_i outcome _
          have hlonger : (log ++ [MeasuredBelief.mk distributions outcome]).length = log.length + 1 := by simp
          dsimp only at hrun
          split at hrun
          · cases hrun
            omega
          · have hrest := ih (by omega) hrun
            omega

/-- Each round of a climb adds a score or halves the step. -/
theorem Round.adds_or_halves (h : Round s c c') : c'.log.length ≤ s.evaluations ∧
    (c.log.length < c'.log.length ∧ c'.step = c.step ∨
      c.log.length ≤ c'.log.length ∧ c'.step = c.step / 2) := by
  cases h with
  | moved hgoing htried =>
    obtain ⟨-, hlength, hlonger⟩ := length_of_firstImprovement hgoing.room.le htried
    exact ⟨hlength, .inl ⟨hlonger rfl, rfl⟩⟩
  | halved hgoing htried =>
    obtain ⟨hle, hlength, -⟩ := length_of_firstImprovement hgoing.room.le htried
    exact ⟨hlength, .inr ⟨hle, rfl⟩⟩

theorem Round.goesOn (h : Round s c c') : c.GoesOn s := by
  cases h <;> assumption

/-- What a round does not add to the scores it takes from the halvings that are left. -/
theorem Round.exists_passesWithin (h : Round s c c') (hpasses : PassesWithin s.minStep k c.step) :
    ∃ k', PassesWithin s.minStep k' c'.step ∧ c.log.length + k' < c'.log.length + k := by
  obtain ⟨-, ⟨hlonger, hstep⟩ | ⟨hle, hstep⟩⟩ := h.adds_or_halves
  · exact ⟨k, hstep ▸ hpasses, by omega⟩
  · cases k with
    | zero => exact absurd h.goesOn.step_ge hpasses
    | succ k => exact ⟨k, hstep ▸ hpasses.resolve_left (not_not_intro h.goesOn.step_ge), by omega⟩

/-- There are no more rounds than scores that they add and halvings that the step allows. -/
theorem InRounds.rounds_le (h : InRounds (Round s) n c c') (hpasses : PassesWithin s.minStep k c.step) :
    n + c.log.length ≤ c'.log.length + k := by
  induction h generalizing k with
  | none c => omega
  | next hround _ ih =>
    obtain ⟨k', hpasses', hlt⟩ := hround.exists_passesWithin hpasses
    have hrest := ih hpasses'
    omega

theorem InRounds.length_le (h : InRounds (Round s) n c c') (hlength : c.log.length ≤ s.evaluations) :
    c.log.length ≤ c'.log.length ∧ c'.log.length ≤ s.evaluations := by
  induction h with
  | none c => exact ⟨le_rfl, hlength⟩
  | next hround _ ih =>
    obtain ⟨hbound, hcases⟩ := hround.adds_or_halves
    have hrest := ih hbound
    omega

/-- A climb with enough rounds goes as far as its rounds do. -/
theorem climb_of_rounds (h : InRounds (Round s) n c c') (hover : ¬ c'.GoesOn s) {fuel : ℕ} (hfuel : n ≤ fuel) :
    climb s fuel c.point c.step c.log = .ok (c'.point, c'.log) := by
  induction h generalizing fuel with
  | none c =>
    cases fuel with
    | zero => rfl
    | succ fuel =>
      have hleft : ¬ (c.log.length < s.evaluations && s.minStep ≤ c.step) = true := by
        rw [Bool.and_eq_true, decide_eq_true_iff, decide_eq_true_iff]
        exact fun hgoing => hover ⟨hgoing.1, hgoing.2⟩
      rw [climb, if_neg hleft]
  | @next n c middle c' hround _ ih =>
    obtain ⟨fuel, rfl⟩ : ∃ more, fuel = more + 1 := ⟨fuel - 1, by omega⟩
    obtain ⟨hroom, hstep⟩ := hround.goesOn
    rw [climb, if_pos (by simp [hroom, hstep])]
    cases hround with
    | moved _ htried | halved _ htried =>
      rw [htried]
      exact ih hover (by omega)

end Climbs

section Restarts

variable {α σ : Type} [Scalar α] [RandomWords σ]

/-- The distributions that a search may come to, whatever words come up: drawn ones, and those that moves
lead to from them. -/
inductive Reached (σ : Type) [RandomWords σ] (generators : List (ScalarGenerator α)) (families : List Family) :
    List (Distribution α) → Prop
  | drawn {words : σ} {distributions : List (Distribution α)}
      (hdrawn : ((drawDistributions (generators.zip families)).run words).1 = .ok distributions) :
      Reached σ generators families distributions
  | moved {current distributions : List (Distribution α)} {move : ParameterMove} {h : α}
      (hcurrent : Reached σ generators families current)
      (hmoved : propose? generators current move h = some distributions) :
      Reached σ generators families distributions

/-- Leakage is measured under all distributions that a search may come to. -/
def NeverFails (σ : Type) [RandomWords σ] (s : SearchSetting α) (families : List Family) : Prop :=
  ∀ distributions, Reached σ s.generators families distributions →
    ∃ outcome, s.measure distributions = .ok outcome

/-- Where a search is: the best belief so far, the one to climb from, all scores so far and the state of its
stream. -/
structure SearchState (α σ : Type) where
  best : MeasuredBelief α
  point : MeasuredBelief α
  log : List (MeasuredBelief α)
  words : σ

/-- A climb from the belief of a search ends at a belief `top`. -/
def SearchState.ClimbsTo (s : SearchSetting α) (t : SearchState α σ) (top : MeasuredBelief α)
    (log : List (MeasuredBelief α)) : Prop :=
  ∃ n step, InRounds (Round s) n ⟨t.point, s.initialStep, t.log⟩ ⟨top, step, log⟩ ∧
    ¬ (ClimbState.mk top step log).GoesOn s

/-- A round of a search that starts again: a climb, and then a random belief to climb from. -/
inductive Restart (s : SearchSetting α) (families : List Family) (t : SearchState α σ) : SearchState α σ → Prop
  | again {top fresh : MeasuredBelief α} {log log' : List (MeasuredBelief α)} {words : σ}
      (hroom : t.log.length < s.evaluations) (hclimb : t.ClimbsTo s top log)
      (hroom' : log.length < s.evaluations)
      (hdrawn : (randomPoint s families log).run t.words = (.ok (.ok fresh, log'), words)) :
      Restart s families t ⟨better (some (better (some t.best) top)) fresh, fresh, log', words⟩

/-- A round in which a search is left: the evaluations are used up, before or after a climb, or no random
belief is drawn. -/
inductive Leaves (s : SearchSetting α) (families : List Family) (t : SearchState α σ) :
    MeasuredBelief α → List (MeasuredBelief α) → σ → Prop
  | spent (hspent : s.evaluations ≤ t.log.length) : Leaves s families t t.best t.log t.words
  | climbed {top : MeasuredBelief α} {log : List (MeasuredBelief α)} (hroom : t.log.length < s.evaluations)
      (hclimb : t.ClimbsTo s top log) (hspent : s.evaluations ≤ log.length) :
      Leaves s families t (better (some t.best) top) log t.words
  | undrawn {top : MeasuredBelief α} {log log' : List (MeasuredBelief α)} {e : InsufficientCoverage}
      {words : σ} (hroom : t.log.length < s.evaluations) (hclimb : t.ClimbsTo s top log)
      (hroom' : log.length < s.evaluations)
      (hdrawn : (randomPoint s families log).run t.words = (.ok (.error e, log'), words)) :
      Leaves s families t (better (some t.best) top) log' words

variable {s : SearchSetting α} {families : List Family} {c : ClimbState α} {t t' : SearchState α σ}
  {k n : ℕ} {point best : MeasuredBelief α} {log : List (MeasuredBelief α)} {words : σ}

theorem firstImprovement_ok (hmeasure : NeverFails σ s families) (h : α) (moves : List ParameterMove)
    (log : List (MeasuredBelief α)) (hpoint : Reached σ s.generators families point.distributions) :
    ∃ moved log', firstImprovement s point h moves log = .ok (moved, log') ∧
      ∀ better, moved = some better → Reached σ s.generators families better.distributions := by
  induction moves generalizing log with
  | nil => exact ⟨none, log, rfl, nofun⟩
  | cons move rest ih =>
    unfold firstImprovement
    split
    · exact ⟨none, log, rfl, nofun⟩
    · cases hproposed : propose? s.generators point.distributions move h with
      | none => exact ih log
      | some distributions =>
        have htried : Reached σ s.generators families distributions := .moved hpoint hproposed
        obtain ⟨outcome, houtcome⟩ := hmeasure distributions htried
        simp only [houtcome]
        split
        · refine ⟨_, _, rfl, ?_⟩
          rintro _ ⟨⟩
          exact htried
        · exact ih _

/-- A climb that goes on has a next round. -/
theorem exists_round (hmeasure : NeverFails σ s families) (hgoing : c.GoesOn s)
    (hpoint : Reached σ s.generators families c.point.distributions) :
    ∃ c', Round s c c' ∧ Reached σ s.generators families c'.point.distributions := by
  obtain ⟨moved, log, htried, hmoved⟩ :=
    firstImprovement_ok hmeasure c.step (movesOf c.point.distributions) c.log hpoint
  cases moved with
  | none => exact ⟨_, .halved hgoing htried, hpoint⟩
  | some better => exact ⟨_, .moved hgoing htried, hmoved better rfl⟩

/-- It comes to its last round, since evaluations and halvings run out. -/
theorem exists_over (hmeasure : NeverFails σ s families) (hpasses : PassesWithin s.minStep k c.step)
    (hpoint : Reached σ s.generators families c.point.distributions) :
    ∃ n c', InRounds (Round s) n c c' ∧ ¬ c'.GoesOn s ∧
      Reached σ s.generators families c'.point.distributions := by
  -- By induction on the evaluations and the halvings that are left, of which each round takes at least one.
  obtain ⟨m, hm⟩ : ∃ m, s.evaluations + k ≤ m + c.log.length := ⟨s.evaluations + k, by omega⟩
  induction m generalizing c k with
  | zero => exact ⟨0, c, .none c, fun hgoing => absurd hgoing.room (by omega), hpoint⟩
  | succ m ih =>
    by_cases hgoing : c.GoesOn s
    · obtain ⟨middle, hround, hmiddle⟩ := exists_round hmeasure hgoing hpoint
      obtain ⟨k', hpasses', hlt⟩ := hround.exists_passesWithin hpasses
      obtain ⟨n, c', hrounds, hover, hreached⟩ := ih hpasses' hmiddle (by omega)
      exact ⟨n + 1, c', .next hround hrounds, hover, hreached⟩
    · exact ⟨0, c, .none c, hgoing, hpoint⟩

/-- A random belief is measured and logged, unless none is drawn. -/
theorem randomPoint_ok (hmeasure : NeverFails σ s families) (log : List (MeasuredBelief α)) (words : σ) :
    (∃ e words', (randomPoint s families log).run words = (.ok (.error e, log), words')) ∨
      ∃ point words', (randomPoint s families log).run words = (.ok (.ok point, log ++ [point]), words') ∧
        Reached σ s.generators families point.distributions := by
  obtain ⟨drawn, words', hrun⟩ :
      ∃ drawn words', (drawDistributions (s.generators.zip families)).run words = (drawn, words') := ⟨_, _, rfl⟩
  unfold randomPoint
  rw [Random.run_bind hrun]
  cases drawn with
  | error e => exact .inl ⟨e, words', rfl⟩
  | ok distributions =>
    have hreached : Reached σ s.generators families distributions := .drawn (congrArg Prod.fst hrun)
    obtain ⟨outcome, houtcome⟩ := hmeasure distributions hreached
    refine .inr ⟨⟨distributions, outcome⟩, words', ?_, hreached⟩
    simp only [houtcome]
    rfl

/-- All climbs end before their rounds are used up. -/
def EndsByItself (s : SearchSetting α) : Prop :=
  ∃ k, PassesWithin s.minStep k s.initialStep ∧ s.evaluations + k ≤ climbRounds

namespace SearchState

omit [RandomWords σ] in
theorem ClimbsTo.length_le (h : t.ClimbsTo s point log) (hlength : t.log.length ≤ s.evaluations) :
    t.log.length ≤ log.length ∧ log.length ≤ s.evaluations := by
  obtain ⟨n, step, hrounds, -⟩ := h
  exact hrounds.length_le hlength

omit [RandomWords σ] in
theorem ClimbsTo.climb_eq (h : t.ClimbsTo s point log) (hends : EndsByItself s)
    (hlength : t.log.length ≤ s.evaluations) :
    climb s climbRounds t.point s.initialStep t.log = .ok (point, log) := by
  have hbound := (h.length_le hlength).2
  obtain ⟨n, step, hrounds, hover⟩ := h
  obtain ⟨k, hpasses, hfuel⟩ := hends
  have hle : n + t.log.length ≤ log.length + k := hrounds.rounds_le hpasses
  exact climb_of_rounds hrounds hover (by omega)

theorem exists_climbsTo (hmeasure : NeverFails σ s families) (hends : EndsByItself s)
    (hpoint : Reached σ s.generators families t.point.distributions) : ∃ top log, t.ClimbsTo s top log := by
  obtain ⟨k, hpasses, -⟩ := hends
  obtain ⟨n, c, hrounds, hover, -⟩ := exists_over (c := ⟨t.point, s.initialStep, t.log⟩) hmeasure hpasses hpoint
  exact ⟨c.point, c.log, n, c.step, hrounds, hover⟩

end SearchState

/-- A search that starts again has added a score. -/
theorem Restart.adds (h : Restart s families t t') :
    t.log.length < t'.log.length ∧ t'.log.length ≤ s.evaluations := by
  obtain ⟨hroom, hclimb, hroom', hdrawn⟩ := h
  have hlength := hclimb.length_le hroom.le
  rcases randomPoint_always s families _ _ _ _ (congrArg Prod.fst hdrawn) with ⟨_, ⟨⟩, -⟩ | ⟨_, _, rfl, -⟩
  rw [List.length_append, List.length_singleton]
  omega

theorem restarts_of_restart (h : Restart s families t t') (hends : EndsByItself s) (fuel : ℕ) :
    (restarts s families (fuel + 1) t.best t.point t.log).run t.words =
      (restarts s families fuel t'.best t'.point t'.log).run t'.words := by
  obtain ⟨hroom, hclimb, hroom', hdrawn⟩ := h
  rw [restarts, if_neg (not_le.mpr hroom), hclimb.climb_eq hends hroom.le]
  simp only [if_neg (not_le.mpr hroom')]
  rw [Random.run_bind hdrawn]

theorem restarts_of_leaves (h : Leaves s families t best log words) (hends : EndsByItself s) {fuel : ℕ}
    (hfuel : s.evaluations ≤ t.log.length + fuel) :
    (restarts s families fuel t.best t.point t.log).run t.words = (.ok (best, log), words) := by
  cases h with
  | spent hspent =>
    cases fuel with
    | zero => rfl
    | succ fuel =>
      rw [restarts, if_pos hspent]
      rfl
  | climbed hroom hclimb hspent =>
    obtain ⟨fuel, rfl⟩ : ∃ more, fuel = more + 1 := ⟨fuel - 1, by omega⟩
    rw [restarts, if_neg (not_le.mpr hroom), hclimb.climb_eq hends hroom.le]
    simp only [if_pos hspent]
    rfl
  | undrawn hroom hclimb hroom' hdrawn =>
    obtain ⟨fuel, rfl⟩ : ∃ more, fuel = more + 1 := ⟨fuel - 1, by omega⟩
    rw [restarts, if_neg (not_le.mpr hroom), hclimb.climb_eq hends hroom.le]
    simp only [if_neg (not_le.mpr hroom')]
    rw [Random.run_bind hdrawn]
    rfl

/-- With as many rounds as evaluations that are left, a search goes as far as its rounds do. -/
theorem restarts_of_rounds (h : InRounds (Restart s families) n t t')
    (hleaves : Leaves s families t' best log words) (hends : EndsByItself s) {fuel : ℕ}
    (hfuel : s.evaluations ≤ t.log.length + fuel) :
    (restarts s families fuel t.best t.point t.log).run t.words = (.ok (best, log), words) := by
  induction h generalizing fuel with
  | none t => exact restarts_of_leaves hleaves hends hfuel
  | next hround _ ih =>
    have hadds := hround.adds
    obtain ⟨fuel, rfl⟩ : ∃ more, fuel = more + 1 := ⟨fuel - 1, by omega⟩
    rw [restarts_of_restart hround hends fuel]
    exact ih hleaves (by omega)

/-- A search is left, after no more rounds than scores that they add. -/
theorem exists_left (hmeasure : NeverFails σ s families) (hends : EndsByItself s)
    (hpoint : Reached σ s.generators families t.point.distributions) :
    ∃ n t' best log words, InRounds (Restart s families) n t t' ∧ Leaves s families t' best log words := by
  -- A round takes one of the evaluations that are left even if its climb tries no move at all.
  obtain ⟨m, hm⟩ : ∃ m, s.evaluations ≤ m + t.log.length := ⟨s.evaluations, by omega⟩
  induction m generalizing t with
  | zero => exact ⟨0, t, _, _, _, .none t, .spent (by omega)⟩
  | succ m ih =>
    by_cases hroom : t.log.length < s.evaluations
    · obtain ⟨top, log, hclimb⟩ := SearchState.exists_climbsTo hmeasure hends hpoint
      by_cases hroom' : log.length < s.evaluations
      · rcases randomPoint_ok hmeasure log t.words with ⟨e, words, hdrawn⟩ | ⟨fresh, words, hdrawn, hfresh⟩
        · exact ⟨0, t, _, _, _, .none t, .undrawn hroom hclimb hroom' hdrawn⟩
        · obtain ⟨next, hround, hpoint'⟩ : ∃ next, Restart s families t next ∧
              Reached σ s.generators families next.point.distributions :=
            ⟨_, .again hroom hclimb hroom' hdrawn, hfresh⟩
          have hadds := hround.adds
          obtain ⟨n, t', best, log', words', hrounds, hleaves⟩ := ih hpoint' (by omega)
          exact ⟨n + 1, t', best, log', words', .next hround hrounds, hleaves⟩
      · exact ⟨0, t, _, _, _, .none t, .climbed hroom hclimb (not_lt.mp hroom')⟩
    · exact ⟨0, t, _, _, _, .none t, .spent (not_lt.mp hroom)⟩

end Restarts

section Whole

variable {α σ : Type} [Scalar α] [RandomWords σ] {s : SearchSetting α} {families : List Family} {n initial : ℕ}
  {start : Start α} {words words' : σ}
  {answer : Except (AnalysisError α) (MeasuredBelief α × List (MeasuredBelief α))}

/-- Something has come of the first draws: a belief to climb from, or a failure. -/
structure HasStarted (σ : Type) [RandomWords σ] (s : SearchSetting α) (families : List Family) (start : Start α) :
    Prop where
  reached : ∀ best, start.best = some best → Reached σ s.generators families best.distributions
  some_of_none : start.best = none → start.failure.isSome = true

/-- The first random beliefs are as many as asked for, or fewer if some are not drawn. -/
theorem initialPoints_ok (hmeasure : NeverFails σ s families)
    (hreached : ∀ best, start.best = some best → Reached σ s.generators families best.distributions)
    (hstarted : 0 < n ∨ (start.best = none → start.failure.isSome = true)) (words : σ) :
    ∃ start' words', (initialPoints s families n start).run words = (.ok start', words') ∧
      HasStarted σ s families start' := by
  induction n generalizing start words with
  | zero => exact ⟨start, words, rfl, hreached, hstarted.resolve_left (lt_irrefl 0)⟩
  | succ n ih =>
    unfold initialPoints
    rcases randomPoint_ok hmeasure start.log words with ⟨e, words', hdrawn⟩ | ⟨point, words', hdrawn, hpoint⟩
    · rw [Random.run_bind hdrawn]
      exact @ih ⟨start.best, some e, start.log⟩ hreached (.inr fun _ => rfl) words'
    · rw [Random.run_bind hdrawn]
      refine @ih ⟨some (better start.best point), start.failure, start.log ++ [point]⟩ ?_
        (.inr fun h => absurd h (Option.some_ne_none _)) words'
      rintro _ ⟨⟩
      exact better_holds hreached hpoint

/-- A whole search, round by round: the first beliefs are drawn and the search goes on from the best of them
until it is left, unless none of them is drawn. -/
inductive Finds (s : SearchSetting α) (initial : ℕ) (families : List Family) (words : σ) :
    Except (AnalysisError α) (MeasuredBelief α × List (MeasuredBelief α)) → σ → Prop
  | undrawn {start : Start α} {e : InsufficientCoverage} {words' : σ}
      (hstart : (initialPoints s families initial ⟨none, none, []⟩).run words = (.ok start, words'))
      (hbest : start.best = none) (hfailure : start.failure = some e) :
      Finds s initial families words (.error (.belief (.insufficientCoverage e))) words'
  | found {start : Start α} {point best : MeasuredBelief α} {log : List (MeasuredBelief α)} {n : ℕ}
      {t : SearchState α σ} {words' words'' : σ}
      (hstart : (initialPoints s families initial ⟨none, none, []⟩).run words = (.ok start, words'))
      (hbest : start.best = some point)
      (hrounds : InRounds (Restart s families) n ⟨point, point, start.log, words'⟩ t)
      (hleaves : Leaves s families t best log words'') :
      Finds s initial families words (.ok (best, log)) words''

theorem explore_of_finds (h : Finds s initial families words answer words') (hends : EndsByItself s) :
    (explore s initial families).run words = (answer, words') := by
  unfold explore
  cases h with
  | undrawn hstart hbest hfailure =>
    rw [Random.run_bind hstart]
    simp only [hbest, hfailure]
    rfl
  | found hstart hbest hrounds hleaves =>
    rw [Random.run_bind hstart]
    simp only [hbest]
    exact restarts_of_rounds hrounds hleaves hends (by omega)

/-- A search ends by itself, if its climbs do. -/
theorem exists_finds (hmeasure : NeverFails σ s families) (hends : EndsByItself s) (hinitial : 0 < initial)
    (words : σ) : ∃ answer words', Finds s initial families words answer words' := by
  have hnone : ∀ best, (Start.mk none none [] : Start α).best = some best →
      Reached σ s.generators families best.distributions := nofun
  obtain ⟨start, words', hstart, hreached, hsome⟩ := initialPoints_ok hmeasure hnone (.inl hinitial) words
  cases hbest : start.best with
  | none =>
    obtain ⟨e, hfailure⟩ := Option.isSome_iff_exists.mp (hsome hbest)
    exact ⟨_, _, .undrawn hstart hbest hfailure⟩
  | some point =>
    obtain ⟨n, t, best, log, words'', hrounds, hleaves⟩ :=
      exists_left (t := ⟨point, point, start.log, words'⟩) hmeasure hends (hreached point hbest)
    exact ⟨_, _, .found hstart hbest hrounds hleaves⟩

end Whole

section Doubles

open Double

/-- A step is halved as often as its exponent is above the least one, and once more. -/
theorem passesWithin_of_value_le {least h : Float} (hleast : 0 < least) {n : ℕ} (hn : n ≤ 1074)
    (hh : (unpacked h).isFinite = true) (hle : value (unpacked h) ≤ 2 ^ (n - 1074 : ℤ)) :
    PassesWithin least (n + 1) h := by
  have hpositive {x : Float} (hx : (unpacked x).isFinite = true) (hle : least ≤ x) : 0 < value (unpacked x) :=
    (lt_iff_value (x := 0) rfl hx).mp (Scalar.lt_of_lt_of_le hleast hle)
  induction n generalizing h with
  | zero =>
    -- Half of a step that is at most the least positive double is rounded to 0.
    by_cases hgoing : least ≤ h
    · rw [Nat.cast_zero, zero_sub] at hle
      have hpos := hpositive hh hgoing
      have hhalf : value (unpacked h) / 2 ≤ 2 ^ (-1074 : ℤ) / 2 := by gcongr
      have hbound : |value (unpacked h) / 2| ≤ 2 ^ (-1074 : ℤ) := by
        rw [abs_of_pos (half_pos hpos)]
        exact (half_le_self hpos.le).trans hle
      have hfinite := (rounds_half hh).isFinite (isStored_two_zpow (by norm_num) (by norm_num)) hbound
      have hzero : value (unpacked (h / 2)) ≤ 0 := by
        rw [(rounds_half hh).value_eq hfinite, ← rounded_half_least]
        exact rounded_mono hhalf
      exact .inr fun hgoing' => absurd (hpositive hfinite hgoing') (not_lt.mpr hzero)
    · exact .inl hgoing
  | succ n ih =>
    by_cases hgoing : least ≤ h
    · have hpos := hpositive hh hgoing
      have hexponent : ((n + 1 : ℕ) - 1074 : ℤ) = n - 1074 + 1 := by omega
      have hbound : |value (unpacked h) / 2| ≤ 2 ^ (n - 1074 : ℤ) := by
        rw [hexponent, zpow_add_one₀ two_ne_zero] at hle
        rw [abs_of_pos (half_pos hpos)]
        linarith
      obtain ⟨hfinite, habs⟩ := (rounds_half hh).abs_value_le (isStored_two_zpow (by omega) (by omega)) hbound
      exact .inr (ih (by omega) hfinite (le_of_abs_le habs))
    · exact .inl hgoing

end Doubles

section Configurations

/-- The setting of a search under a configuration, for some generators and some leakage function. -/
structure Configures {α : Type} (config : SearchConfig α) (s : SearchSetting α) : Prop where
  evaluations_eq : s.evaluations = config.evaluations.toNat
  initialStep_eq : s.initialStep = config.initialStep
  minStep_eq : s.minStep = config.minStep

theorem steps_of_validate {α : Type} [Scalar α] {config : SearchConfig α} (h : config.validate = .ok ()) :
    0 < config.initial.toNat ∧ 0 < config.minStep ∧ config.minStep ≤ config.initialStep ∧
      config.initialStep ≤ 1 := by
  obtain ⟨hinitial, h⟩ := Except.ite_throw_bind_eq_ok_iff.mp h
  obtain ⟨-, h⟩ := Except.ite_throw_bind_eq_ok_iff.mp h
  obtain ⟨hsteps, -⟩ := Except.ite_throw_bind_eq_ok_iff.mp h
  simp only [Bool.not_eq_true', Bool.not_eq_false, Bool.and_eq_true, decide_eq_true_eq] at hsteps
  refine ⟨Nat.pos_of_ne_zero fun hzero => hinitial ?_, hsteps.1.1, hsteps.1.2, hsteps.2⟩
  exact UInt64.toNat_inj.mp hzero

variable {σ : Type} [RandomWords σ] {config : SearchConfig Float} {s : SearchSetting Float}

open Double in
/-- The first step of a valid configuration is halved no more than 1075 times. -/
theorem passesWithin_initialStep (hvalid : config.validate = .ok ()) (hs : Configures config s) :
    PassesWithin s.minStep 1075 s.initialStep := by
  obtain ⟨-, hleast, hle, hone⟩ := steps_of_validate hvalid
  have hpos : 0 < config.initialStep := Scalar.lt_of_lt_of_le hleast hle
  have hfinite : (unpacked config.initialStep).isFinite = true :=
    isFinite_iff.mp (Scalar.isFinite_of_between (Scalar.le_of_lt hpos) hone rfl rfl)
  rw [hs.minStep_eq, hs.initialStep_eq]
  refine passesWithin_of_value_le hleast (n := 1074) le_rfl hfinite ?_
  have hvalue : value (unpacked 1) = 2 ^ (((1074 : ℕ) : ℤ) - 1074) := by
    rw [show unpacked 1 = .finite .positive (2 ^ 52) (-52) (by decide) from rfl]
    norm_num [value]
  exact hvalue ▸ (le_iff_value hfinite rfl).mp hone

theorem endsByItself_of_validate (hvalid : config.validate = .ok ()) (hs : Configures config s) :
    EndsByItself s := by
  refine ⟨1075, passesWithin_initialStep hvalid hs, ?_⟩
  have hsize : config.evaluations.toNat < UInt64.size := config.evaluations.toNat_lt
  have hwords : UInt64.size = 2 ^ 64 := rfl
  rw [hs.evaluations_eq, climbRounds]
  omega

/-- Whatever the generators, the families, the leakage and the words of the stream are, a search
under a valid configuration ends by itself. Draws of random numbers are taken to answer. -/
theorem searchCombination_ends (hvalid : config.validate = .ok ()) (hs : Configures config s)
    {families : List Family} (hmeasure : NeverFails σ s families) (words : σ) :
    (∀ c c', Round s c c' → c'.log.length ≤ s.evaluations ∧
      (c.log.length < c'.log.length ∧ c'.step = c.step ∨
        c.log.length ≤ c'.log.length ∧ c'.step = c.step / 2)) ∧
    (∀ n c c', InRounds (Round s) n c c' → c.step = s.initialStep →
      n + c.log.length ≤ c'.log.length + 1075) ∧
    (∀ t t' : SearchState Float σ, Restart s families t t' →
      t.log.length < t'.log.length ∧ t'.log.length ≤ s.evaluations) ∧
    (∃ answer words', Finds s config.initial.toNat families words answer words') ∧
    ∀ answer words', Finds s config.initial.toNat families words answer words' →
      (searchCombination s config.initial.toNat families).run words =
        (answer.map fun (best, log) => ⟨families, best.outcome, log.map MeasuredBelief.score⟩, words') := by
  have hends := endsByItself_of_validate hvalid hs
  refine ⟨fun c c' => Round.adds_or_halves, fun n c c' hrounds hstep => ?_, fun t t' => Restart.adds,
    exists_finds hmeasure hends (steps_of_validate hvalid).1 words, fun answer words' hfinds => ?_⟩
  · exact hrounds.rounds_le (hstep ▸ passesWithin_initialStep hvalid hs)
  · exact Random.run_bind (explore_of_finds hfinds hends)

/-- A search for a leakage that is the same under all beliefs, so that no move raises it. -/
def steadySearch : SearchSetting Float :=
  ⟨[⟨"delay", false, [.normal], ⟨0, 10⟩, .standard, none, 0⟩], 60, 0.25, 1e-3,
    fun _ => .ok ⟨⟨[], 0⟩, ⟨[], [], 0, {}, .mutualInformation⟩⟩⟩

theorem steadySearch_ends :
    (SearchConfig.standard : SearchConfig Float).validate = .ok () ∧
    NeverFails Xoshiro steadySearch [.normal] ∧
    ∃ answer words', Finds steadySearch 8 [.normal] (Xoshiro.ofSeed 0) answer words' ∧
      (searchCombination steadySearch 8 [.normal]).run (Xoshiro.ofSeed 0) = (answer.map fun (best, log) =>
        ⟨[.normal], best.outcome, log.map MeasuredBelief.score⟩, words') := by
  have hvalid : (SearchConfig.standard : SearchConfig Float).validate = .ok () := by decide +kernel
  have hmeasure : NeverFails Xoshiro steadySearch [.normal] := fun _ _ => ⟨_, rfl⟩
  obtain ⟨-, -, -, ⟨answer, words', hfinds⟩, hrun⟩ :=
    searchCombination_ends hvalid ⟨rfl, rfl, rfl⟩ hmeasure (Xoshiro.ofSeed 0)
  exact ⟨hvalid, hmeasure, answer, words', hfinds, hrun answer words' hfinds⟩

end Configurations

end Search

end InfoFlow
