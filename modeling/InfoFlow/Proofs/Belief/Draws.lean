import InfoFlow.Proofs.Belief.Candidates
import InfoFlow.Proofs.Belief.Moves
import InfoFlow.Proofs.Random.Closed

namespace InfoFlow

open InfoFlow.Random

section Rejection

variable {σ β γ : Type} {P : β → Prop} {Q : γ → Prop}

/-- Every answer of a draw that is not rejected satisfies `P`, from every state of the stream. -/
def Random.AlwaysSome (x : Random σ (Option β)) (P : β → Prop) : Prop :=
  x.Always fun drawn => ∀ b, drawn = some b → P b

namespace Random.AlwaysSome

theorem of_pure {b : β} (hb : P b) : (pure (some b) : Random σ _).AlwaysSome P := by
  refine Always.of_pure ?_
  rintro _ ⟨⟩
  exact hb

theorem of_ite {kept : Prop} [Decidable kept] {b : β} (hb : kept → P b) :
    (pure (if kept then some b else none) : Random σ _).AlwaysSome P := by
  refine Always.of_pure fun c hc => ?_
  split at hc <;> cases hc
  exact hb ‹_›

theorem bind {x : Random σ γ} {f : γ → Random σ (Option β)} (hx : x.Always Q)
    (hf : ∀ c, Q c → (f c).AlwaysSome P) : (x >>= f).AlwaysSome P :=
  Always.bind hx hf

theorem map {x : Random σ (Option β)} {f : β → γ} (hx : x.AlwaysSome P) (hf : ∀ b, P b → Q (f b)) :
    (x >>= fun drawn => pure (drawn.map f)).AlwaysSome Q := by
  refine Always.bind hx fun drawn hdrawn => Always.of_pure fun c hc => ?_
  obtain ⟨b, rfl, rfl⟩ := Option.map_eq_some_iff.mp hc
  exact hf b (hdrawn b rfl)

end Random.AlwaysSome

end Rejection

variable {α σ : Type} [Scalar α] [RandomWords σ]

namespace Belief

section Numbers

variable [LawfulOrder α] [LawfulBounds α] {low high : α}

theorem uniform_between [LawfulUniform α] (hlow : Scalar.IsBounded low) (hhigh : high ≤ Scalar.ofNat (2 ^ 54)) :
    (uniform low high : Random σ α).Always fun x => low ≤ x ∧ (low ≤ high → x ≤ high) := by
  unfold uniform
  split
  · rename_i hlt
    exact (closed_draw_between hlow hlt hhigh).mono fun x hx => ⟨hx.1, fun _ => hx.2⟩
  · exact Always.of_pure ⟨Scalar.le_refl (Scalar.isFinite_iff.mp hlow.isFinite).1, id⟩

omit [Scalar α] [LawfulOrder α] [LawfulBounds α] in
theorem uniform_real {x y : ℝ} (h : x < y) :
    (uniform (.real x) (.real y) : Random σ Exact).Always fun z => ∃ w, z = .real w ∧ x ≤ w ∧ w ≤ y := by
  unfold uniform
  rw [if_pos (Exact.real_lt.mpr h)]
  exact closed_draw_mem h

/-- An integer between two ends; the first one if none lies between them. -/
def IsWhole (first last : ℤ) (x : α) : Prop := ∃ i : ℤ, x = Scalar.ofInt i ∧ first ≤ i ∧ i ≤ max first last

theorem integer_between [LawfulFloor α] [LawfulIntegers α] (hlow : Scalar.IsBounded low)
    (hhigh : Scalar.IsBounded high) :
    (integer low high : Random σ α).Always
      (IsWhole (Scalar.toInt64 (Scalar.ceil low)).toInt (Scalar.toInt64 (Scalar.floor high)).toInt) := by
  have hsize := hlow.natAbs_ceil_le
  have hsize' := hhigh.natAbs_floor_le
  unfold integer
  dsimp only
  split
  · rename_i hlt
    refine Always.bind (integerBetween_mem hlt.le ?_) fun i hi =>
      Always.of_pure ⟨i, rfl, hi.1, le_max_of_le_right hi.2⟩
    have hwords : (UInt64.size : ℤ) = 2 ^ 64 := rfl
    omega
  · exact Always.of_pure ⟨_, rfl, le_rfl, le_max_left _ _⟩

omit [RandomWords σ] [LawfulOrder α] [LawfulBounds α] in
/-- Two numbers in order are the two that are drawn. -/
theorem increasingPair_always {draw : Random σ α} {P : α → Prop} (hdraw : draw.Always P) :
    (increasingPair draw).AlwaysSome fun pair => P pair.1 ∧ P pair.2 ∧ ¬ pair.2 ≤ pair.1 := by
  unfold increasingPair
  refine Always.bind hdraw fun x hx => Always.bind hdraw fun y hy => ?_
  by_cases hle : x ≤ y
  · simp only [if_pos hle]
    refine Always.of_pure fun pair hpair => ?_
    split at hpair <;> cases hpair
    exact ⟨hx, hy, ‹_›⟩
  · simp only [if_neg hle]
    refine Always.of_pure fun pair hpair => ?_
    cases hpair
    exact ⟨hy, hx, hle⟩

end Numbers

section Values

variable [LawfulOrder α] [LawfulBounds α] {r : ValueRange α} {high : α}

theorem location_always [LawfulUniform α] (hr : r.IsAccepted) :
    (uniform r.lower r.upper : Random σ α).Always fun x => r.contains x = true :=
  (uniform_between hr.isBounded_lower (LawfulOrder.le_trans hr.isBounded_upper.le
    (LawfulUniform.ofNat_mono (by norm_num)))).mono fun _ hx =>
      ValueRange.contains_iff.mpr ⟨hx.1, hx.2 (Scalar.le_of_lt hr.lower_lt_upper)⟩

theorem positive_always [LawfulUniform α] [LawfulLimits α] (hhigh : high ≤ Scalar.ofNat (2 ^ 54)) :
    (uniform minPositive high : Random σ α).Always fun x => minPositive ≤ x :=
  (uniform_between LawfulLimits.isBounded_minPositive hhigh).mono fun _ hx => hx.1

theorem probability_always [LawfulUniform α] [LawfulLimits α] :
    (uniform minProbability maxProbability : Random σ α).Always IsProbability :=
  (uniform_between LawfulLimits.isBounded_minProbability (LawfulOrder.le_trans
    LawfulLimits.isBounded_maxProbability.le (LawfulUniform.ofNat_mono (by norm_num)))).mono
      fun _ hx => ⟨hx.1, hx.2 LawfulLimits.minProbability_le⟩

variable [LawfulFloor α] [LawfulIntegers α]

/-- The least number of trials is 1, and the largest is no integer outside of the range but for that. -/
theorem trials_always (hr : r.IsAccepted) :
    (integer (Scalar.max r.lower 1) (Scalar.max r.upper 1) : Random σ α).Always
      (IsWhole 1 (max r.first r.last)) := by
  have hone : (1 : α) = Scalar.ofInt 1 := (Scalar.ofInt_natCast 1).symm
  have hunit : Scalar.IsBounded (1 : α) := hone ▸ Scalar.isBounded_ofInt (by decide)
  have hnumber := (Scalar.isFinite_iff.mp hunit.isFinite).1
  have hlow : Scalar.IsBounded (Scalar.max r.lower 1) ∧
      (Scalar.toInt64 (Scalar.ceil (Scalar.max r.lower 1))).toInt ≤ max 1 r.first := by
    rcases Scalar.max_eq_or r.lower 1 with h | h <;> rw [h]
    · exact ⟨hr.isBounded_lower, le_max_right _ _⟩
    · refine ⟨hunit, le_max_of_le_left ?_⟩
      rw [hone, Scalar.toInt64_ceil_ofInt (by decide)]
  have hhigh : Scalar.IsBounded (Scalar.max r.upper 1) ∧
      (Scalar.toInt64 (Scalar.floor (Scalar.max r.upper 1))).toInt ≤ max 1 r.last := by
    rcases Scalar.max_eq_or r.upper 1 with h | h <;> rw [h]
    · exact ⟨hr.isBounded_upper, le_max_right _ _⟩
    · refine ⟨hunit, le_max_of_le_left ?_⟩
      rw [hone, Scalar.toInt64_floor_ofInt (by decide)]
  obtain ⟨hlow, hfirst⟩ := hlow
  obtain ⟨hhigh, hlast⟩ := hhigh
  have hleast : 1 ≤ (Scalar.toInt64 (Scalar.ceil (Scalar.max r.lower 1))).toInt :=
    Scalar.le_toInt64_ceil hlow.isFinite (by decide) (hone ▸ Scalar.le_max_right r.lower hnumber)
  refine (integer_between hlow hhigh).mono ?_
  rintro _ ⟨i, rfl, hge, hle⟩
  exact ⟨i, rfl, by omega, by omega⟩

variable {f : Family} {values : List α} {x : α}

/-- What may be drawn for a family: the bounds of each value, and what the draw is rejected without. -/
inductive Drawn (r : ValueRange α) : Family → List α → Prop
  | bernoulli {p : α} (hp : IsProbability p) : Drawn r .bernoulli [p]
  | beta {a b : α} (ha : minPositive ≤ a) (hb : minPositive ≤ b) : Drawn r .beta [a, b]
  | betaBinomial {n a b : α} (hn : IsWhole 1 (max r.first r.last) n) (ha : minPositive ≤ a)
      (hb : minPositive ≤ b) (hmean : r.contains (n * a / (a + b)) = true) : Drawn r .betaBinomial [n, a, b]
  | binomial {n p : α} (hn : IsWhole 1 (max r.first r.last) n) (hp : IsProbability p)
      (hmean : r.contains (n * p) = true) : Drawn r .binomial [n, p]
  | cauchy {x scale : α} (hx : r.contains x = true) (hscale : minPositive ≤ scale) : Drawn r .cauchy [x, scale]
  | discreteUniform {a b : α} (ha : IsWhole r.first r.last a) (hb : IsWhole r.first r.last b)
      (hends : ¬ b ≤ a) : Drawn r .discreteUniform [a, b]
  | exponential {rate : α} (hrate : minPositive ≤ rate) (hmean : r.contains (1 / rate) = true) :
      Drawn r .exponential [rate]
  | gamma {a b : α} (ha : minPositive ≤ a) (hb : minPositive ≤ b) (hmean : r.contains (a / b) = true) :
      Drawn r .gamma [a, b]
  | geometric {p : α} (hp : IsProbability p) (hmean : r.contains (1 / p) = true) : Drawn r .geometric [p]
  | laplace {x scale : α} (hx : r.contains x = true) (hscale : minPositive ≤ scale) :
      Drawn r .laplace [x, scale]
  | normal {x scale : α} (hx : r.contains x = true) (hscale : minPositive ≤ scale) : Drawn r .normal [x, scale]
  | poisson {rate : α} (hrate : minPositive ≤ rate) : Drawn r .poisson [rate]
  | studentT {freedom x scale : α} (hfreedom : minPositive ≤ freedom) (hx : r.contains x = true)
      (hscale : minPositive ≤ scale) : Drawn r .studentT [freedom, x, scale]
  | truncatedNormal {x scale a b : α} (hx : r.contains x = true) (hscale : minPositive ≤ scale)
      (ha : r.contains a = true) (hb : r.contains b = true) (hends : ¬ b ≤ a) :
      Drawn r .truncatedNormal [x, scale, a, b]
  | uniform {a b : α} (ha : r.contains a = true) (hb : r.contains b = true) (hends : ¬ b ≤ a) :
      Drawn r .uniform [a, b]

/-- If there is an integer in the range, whole numbers that are drawn from it are points. -/
theorem IsWhole.point_admits (hr : r.IsAccepted) (hsome : r.first ≤ r.last) (h : IsWhole r.first r.last x) :
    Move.point.Admits r x := by
  obtain ⟨i, rfl, hfirst, hlast⟩ := h
  rw [max_eq_right hsome] at hlast
  have hword : (Scalar.toInt64 (Scalar.ofInt i : α)).toInt = i :=
    LawfulIntegers.toInt64_ofInt (hr.natAbs_le hfirst hlast)
  exact hr.hasPoint (hword.symm ▸ hfirst) (hword.symm ▸ hlast)

/-- A number of trials, and the word it is stored as. -/
theorem IsWhole.toNat_toUInt64 [LawfulNaturals α] (hr : r.IsAccepted)
    (h : IsWhole 1 (max r.first r.last) x) :
    x = Scalar.ofUInt64 (Scalar.toUInt64 x) ∧ 1 ≤ (Scalar.toUInt64 x).toNat ∧
      ((Scalar.toUInt64 x).toNat : ℤ) ≤ max 1 (max r.first r.last) := by
  obtain ⟨i, rfl, hge, hle⟩ := h
  have hfirst : r.first.natAbs ≤ 2 ^ 53 := hr.isBounded_lower.natAbs_ceil_le
  have hlast : r.last.natAbs ≤ 2 ^ 53 := hr.isBounded_upper.natAbs_floor_le
  have hword : ((Scalar.toUInt64 (Scalar.ofInt i : α)).toNat : ℤ) = i :=
    Scalar.toUInt64_ofInt (by omega) (by omega)
  refine ⟨?_, by omega, by omega⟩
  rw [Scalar.ofUInt64, ← Scalar.ofInt_natCast, hword]

/-- If there is an integer in the range, no number of trials is above the last one, but for a single trial. -/
theorem IsWhole.count_admits [LawfulNaturals α] (hr : r.IsAccepted) (hsome : r.first ≤ r.last)
    (h : IsWhole 1 (max r.first r.last) x) : Move.count.Admits r x := by
  obtain ⟨-, hpos, hle⟩ := h.toNat_toUInt64 hr
  exact ⟨hpos, by omega⟩

/-- Values that may be drawn are within the bounds of their moves. -/
theorem Drawn.admits [LawfulNaturals α] (hr : r.IsAccepted) (h : Drawn r f values)
    (hsome : f.isDiscrete = true → r.first ≤ r.last) : List.Forall₂ (Move.Admits r) f.moves values := by
  -- Draws of integers answer the first end if the ends do not increase: only where the range holds an
  -- integer is that one of them.
  cases h
  case bernoulli hx | poisson hx => exact .cons hx .nil
  case geometric hx _ | exponential hx _ => exact .cons hx .nil
  case beta hx hy | cauchy hx hy | laplace hx hy | normal hx hy => exact .cons hx (.cons hy .nil)
  case gamma hx hy _ | uniform hx hy _ => exact .cons hx (.cons hy .nil)
  case studentT hx hy hz => exact .cons hx (.cons hy (.cons hz .nil))
  case truncatedNormal hx hscale ha hb _ => exact .cons hx (.cons hscale (.cons ha (.cons hb .nil)))
  case binomial hn hp _ => exact .cons (hn.count_admits hr (hsome rfl)) (.cons hp .nil)
  case betaBinomial hn ha hb _ => exact .cons (hn.count_admits hr (hsome rfl)) (.cons ha (.cons hb .nil))
  case discreteUniform ha hb _ =>
    exact .cons (ha.point_admits hr (hsome rfl)) (.cons (hb.point_admits hr (hsome rfl)) .nil)

variable [LawfulUniform α] [LawfulLimits α]

omit [LawfulFloor α] [LawfulIntegers α] in
/-- The mean of a Poisson may be limited by the range from below, too. -/
theorem mean_always (hr : r.IsAccepted) :
    (uniform (Scalar.max r.lower minPositive) r.upper : Random σ α).Always fun x => minPositive ≤ x := by
  have hleast := LawfulLimits.isBounded_minPositive (α := α)
  have hlow : Scalar.IsBounded (Scalar.max r.lower minPositive) := by
    rcases Scalar.max_eq_or r.lower minPositive with h | h <;> rw [h]
    · exact hr.isBounded_lower
    · exact hleast
  have hhigh : r.upper ≤ Scalar.ofNat (2 ^ 54) :=
    LawfulOrder.le_trans hr.isBounded_upper.le (LawfulUniform.ofNat_mono (by norm_num))
  have hge := Scalar.le_max_right r.lower (Scalar.isFinite_iff.mp hleast.isFinite).1
  exact (uniform_between hlow hhigh).mono fun x hx => LawfulOrder.le_trans hge hx.1

/-- Whatever words come up, a draw that is not rejected gives values of these. -/
theorem drawValues_drawn (hr : r.IsAccepted) (f : Family) :
    (drawValues f r : Random σ _).AlwaysSome (Drawn r f) := by
  have hlimit {n : ℕ} (hn : n ≤ 2 ^ 54) : (Scalar.ofNat n : α) ≤ Scalar.ofNat (2 ^ 54) :=
    LawfulUniform.ofNat_mono hn
  have hspread : Scalar.max r.width minPositive ≤ Scalar.ofNat (2 ^ 54) :=
    Scalar.max_le (LawfulUniform.width_le hr.isBounded_lower hr.isBounded_upper)
      (LawfulOrder.le_trans LawfulLimits.isBounded_minPositive.le (hlimit (by norm_num)))
  have hshape : (uniform minPositive 40 : Random σ α).Always fun x => minPositive ≤ x :=
    positive_always (hlimit (n := 40) (by norm_num))
  have hrate : (uniform minPositive 50 : Random σ α).Always fun x => minPositive ≤ x :=
    positive_always (hlimit (n := 50) (by norm_num))
  have hscale := positive_always (σ := σ) hspread
  have hlocation := location_always (σ := σ) hr
  have hends := increasingPair_always hlocation
  unfold drawValues
  cases f <;> dsimp only
  case bernoulli => exact AlwaysSome.bind probability_always fun p hp => .of_pure (.bernoulli hp)
  case geometric => exact AlwaysSome.bind probability_always fun p hp => .of_ite (.geometric hp)
  case beta =>
    exact AlwaysSome.bind hshape fun a ha => AlwaysSome.bind hshape fun b hb => .of_pure (.beta ha hb)
  case gamma =>
    exact AlwaysSome.bind hshape fun a ha => AlwaysSome.bind hshape fun b hb => .of_ite (.gamma ha hb)
  case binomial =>
    exact AlwaysSome.bind (trials_always hr) fun n hn => AlwaysSome.bind probability_always fun p hp =>
      .of_ite (.binomial hn hp)
  case betaBinomial =>
    exact AlwaysSome.bind (trials_always hr) fun n hn => AlwaysSome.bind hshape fun a ha =>
      AlwaysSome.bind hshape fun b hb => .of_ite (.betaBinomial hn ha hb)
  case exponential => exact AlwaysSome.bind hrate fun x hx => .of_ite (.exponential hx)
  case poisson => exact AlwaysSome.bind (mean_always hr) fun x hx => .of_pure (.poisson hx)
  case cauchy =>
    exact AlwaysSome.bind hlocation fun x hx =>
      AlwaysSome.bind (positive_always (hlimit (n := 10) (by norm_num))) fun y hy => .of_pure (.cauchy hx hy)
  case laplace =>
    exact AlwaysSome.bind hlocation fun x hx => AlwaysSome.bind hrate fun y hy => .of_pure (.laplace hx hy)
  case normal =>
    exact AlwaysSome.bind hlocation fun x hx => AlwaysSome.bind hscale fun y hy => .of_pure (.normal hx hy)
  case studentT =>
    exact AlwaysSome.bind hscale fun x hx => AlwaysSome.bind hlocation fun y hy =>
      AlwaysSome.bind hscale fun z hz => .of_pure (.studentT hx hy hz)
  case discreteUniform =>
    exact (increasingPair_always (integer_between hr.isBounded_lower hr.isBounded_upper)).map
      fun pair hpair => .discreteUniform hpair.1 hpair.2.1 hpair.2.2
  case uniform => exact hends.map fun pair hpair => .uniform hpair.1 hpair.2.1 hpair.2.2
  case truncatedNormal =>
    exact AlwaysSome.bind hlocation fun x hx => AlwaysSome.bind hscale fun y hy =>
      hends.map fun pair hpair => .truncatedNormal hx hy hpair.1 hpair.2.1 hpair.2.2
  case categorical | constant => exact Always.of_pure (by rintro _ ⟨⟩)

/-- A distribution that is drawn is built from values that may be drawn for its family. -/
theorem drawDistribution_drawn (hr : r.IsAccepted) (f : Family) :
    (drawDistribution f r : Random σ _).AlwaysSome fun d =>
      ∃ values, Drawn r f values ∧ Distribution.build f values none = .ok d := by
  unfold drawDistribution
  refine Always.bind (drawValues_drawn hr f) fun drawn hdrawn => Always.of_pure fun d hd => ?_
  obtain ⟨values, hvalues, hbuild⟩ := Option.bind_eq_some_iff.mp hd
  exact ⟨values, hdrawn values hvalues, Except.toOption_eq_some_iff.mp hbuild⟩

/-- Its parameters are within the bounds of their moves. -/
theorem drawDistribution_fits [LawfulNaturals α] (hr : r.IsAccepted) (f : Family) :
    (drawDistribution f r : Random σ _).AlwaysSome fun d =>
      d.family = f ∧ ((f.isDiscrete = true → r.first ≤ r.last) → d.Fits r) := by
  refine (drawDistribution_drawn hr f).mono fun drawn hdrawn d hd => ?_
  obtain ⟨values, hvalues, hbuild⟩ := hdrawn d hd
  exact ⟨Distribution.family_of_build hbuild,
    fun hsome => Distribution.fits_of_build hbuild (hvalues.admits hr hsome)⟩

end Values

end Belief

namespace ScalarGenerator

variable [LawfulOrder α] [LawfulBounds α] [LawfulRounding α] [LawfulFloor α] [LawfulIntegers α]
  [LawfulNaturals α] [LawfulUniform α] [LawfulLimits α] {g : ScalarGenerator α}

/-- However many attempts are left, what is drawn for a family is admitted. -/
theorem drawFamily_admits (hr : g.range.IsAccepted) (hminimum : 1 ≤ g.policy.minimum) (f : Family) :
    (g.drawFamily f : Random σ _).Always fun drawn => ∀ d covered, drawn = .ok (d, covered) → g.Admits f d := by
  have hattempts (attempts best : ℕ) : (g.drawFrom (pure (some f)) attempts best : Random σ _).Always
      fun drawn => ∀ d covered, drawn = .ok (d, covered) → g.Admits f d := by
    induction attempts generalizing best with
    | zero => exact Always.of_pure (by rintro _ _ ⟨⟩)
    | succ attempts ih =>
      unfold drawFrom
      refine Always.bind (P := fun picked => picked = some f) (Always.of_pure rfl) ?_
      rintro _ rfl
      refine Always.bind (Belief.drawDistribution_fits hr f) fun drawn hdrawn => ?_
      cases drawn with
      | none => exact ih best
      | some d =>
        obtain ⟨hfamily, hfits⟩ := hdrawn d rfl
        dsimp only
        split
        · rename_i hadequate
          refine Always.of_pure ?_
          rintro _ _ ⟨⟩
          have hcovered : g.policy.minimum.toNat ≤ g.coverage d := by simpa [isAdequate] using hadequate
          refine ⟨hfamily, hcovered, hfits fun hdiscrete => ?_⟩
          exact first_le_last hr hminimum (by rwa [Distribution.isDiscrete, hfamily]) hcovered
        · exact ih _
  exact hattempts _ _

end ScalarGenerator

end InfoFlow
