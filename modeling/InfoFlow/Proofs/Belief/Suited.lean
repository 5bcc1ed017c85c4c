import InfoFlow.Distribution.ClosedForm
import InfoFlow.Proofs.Belief.Draws

namespace InfoFlow

theorem Exact.mul_comm (z w : Exact) : z * w = w * z := by
  change mul z w = mul w z
  cases z <;> cases w <;> simp [mul, CommMonoid.mul_comm]

namespace Distribution

variable {α : Type} [Scalar α]

/-- The support of a family that is drawn by its ends. -/
def drawnSupport? (d : Distribution α) : Option (Support α) :=
  match d with
  | discreteUniform .. | truncatedNormal .. | uniform .. => some d.support
  | _ => none

/-- The number around which a family places its values. -/
def location? : Distribution α → Option α
  | cauchy location _ | laplace location _ | normal location _ => some location
  | studentT _ location _ | truncatedNormal location _ _ _ => some location
  | _ => none

/-- The mean of a family that is drawn by shapes, rates or probabilities. -/
def drawnMean? : Distribution α → Option α
  | betaBinomial n a b => some (Scalar.ofUInt64 n * a / (a + b))
  | binomial n p => some (Scalar.ofUInt64 n * p)
  | exponential rate => some (1 / rate)
  | gamma shape rate => some (shape / rate)
  | geometric p => some (1 / p)
  | _ => none

/-- Scales, shapes and rates. -/
def magnitudes : Distribution α → List α
  | beta a b | betaBinomial _ a b | gamma a b => [a, b]
  | cauchy _ scale | laplace _ scale | normal _ scale | truncatedNormal _ scale _ _ => [scale]
  | exponential rate | poisson rate => [rate]
  | studentT freedom _ scale => [freedom, scale]
  | _ => []

def probabilities : Distribution α → List α
  | bernoulli p | binomial _ p | geometric p => [p]
  | _ => []

/-- A belief that an attacker may start from: its values, or the centre of them, are in the range. -/
structure Suits (r : ValueRange α) (d : Distribution α) : Prop where
  support_subset : ∀ s ∈ d.drawnSupport?,
    r.contains s.lower = true ∧ s.lower < s.upper ∧ r.contains s.upper = true
  mean_mem : ∀ m ∈ d.drawnMean?, r.contains m = true
  location_mem : ∀ x ∈ d.location?, r.contains x = true
  magnitude_ge : ∀ x ∈ d.magnitudes, Belief.minPositive ≤ x
  probability : ∀ p ∈ d.probabilities, Belief.IsProbability p

/-- It is the mean in closed form, where there is one. -/
theorem mean?_eq_drawnMean? {d : Distribution Exact} {m : Exact} (h : d.drawnMean? = some m) :
    d.mean? = some m ∨ d.family = .betaBinomial := by
  cases d <;> cases h
  case betaBinomial => exact .inr rfl
  case binomial n p => exact .inl (congrArg some (Exact.mul_comm p (Scalar.ofUInt64 n)))
  case exponential | gamma | geometric => exact .inl rfl

end Distribution

namespace Belief

variable {α σ : Type} [Scalar α] [RandomWords σ] [LawfulOrder α] [LawfulBounds α] {r : ValueRange α} {f : Family}
  {values : List α} {a b : α} {d : Distribution α}

/-- Ends that are drawn from a range increase, since a draw of equal ends is rejected. -/
theorem lt_of_contains (ha : r.contains a = true) (hb : r.contains b = true) (h : ¬ b ≤ a) : a < b :=
  Scalar.lt_of_not_le (LawfulBounds.isNaN_of_le (ValueRange.contains_iff.mp hb).1).2
    (LawfulBounds.isNaN_of_le (ValueRange.contains_iff.mp ha).1).2 h

variable [LawfulFloor α] [LawfulIntegers α]

/-- If there is an integer in the range, whole numbers that are drawn from it are read back from their words. -/
theorem IsWhole.ofInt64_toInt64 (hr : r.IsAccepted) (hsome : r.first ≤ r.last) (h : IsWhole r.first r.last a) :
    (Scalar.ofInt64 (Scalar.toInt64 a) : α) = a := by
  obtain ⟨i, rfl, hfirst, hlast⟩ := h
  rw [max_eq_right hsome] at hlast
  rw [Scalar.ofInt64, LawfulIntegers.toInt64_ofInt (hr.natAbs_le hfirst hlast)]

/-- There is one if two are drawn that differ. -/
theorem IsWhole.first_le_last (hr : r.IsAccepted) (ha : IsWhole r.first r.last a)
    (hb : IsWhole r.first r.last b) (h : ¬ b ≤ a) : r.first ≤ r.last := by
  obtain ⟨i, rfl, hfirst, hlast⟩ := ha
  obtain ⟨j, rfl, hfirst', hlast'⟩ := hb
  by_contra hnone
  obtain rfl : i = j := by omega
  have hbound : r.first.natAbs ≤ 2 ^ 53 := hr.isBounded_lower.natAbs_ceil_le
  have hsize : i.natAbs ≤ 2 ^ 53 := by omega
  exact h ((Scalar.ofInt_le_ofInt hsize hsize).mpr le_rfl)

/-- What is built from values that may be drawn for a range suits it. -/
theorem Drawn.suits [LawfulNaturals α] (hr : r.IsAccepted) (h : Drawn r f values)
    (hbuild : Distribution.build f values none = .ok d) : d.Suits r := by
  have hchecked := (Distribution.build_eq_ok_iff.mp hbuild).2.2
  have htwo {x y : α} (hx : minPositive ≤ x) (hy : minPositive ≤ y) : ∀ z ∈ [x, y], minPositive ≤ z :=
    List.forall_mem_cons.mpr ⟨hx, List.forall_mem_singleton.mpr hy⟩
  have hgiven {β : Type} {P : β → Prop} {b : β} (hb : P b) : ∀ c ∈ some b, P c := by
    rintro _ ⟨⟩
    exact hb
  have hnone {β : Type} {P : β → Prop} : ∀ c ∈ (none : Option β), P c :=
    fun c hc => absurd hc (Option.not_mem_none c)
  -- Each family has some of the parameters that are limited: nothing is asked of the others.
  cases h
  case bernoulli hp =>
    cases hchecked
    exact ⟨hnone, hnone, hnone, List.forall_mem_nil _, List.forall_mem_singleton.mpr hp⟩
  case geometric hp hmean =>
    cases hchecked
    exact ⟨hnone, hgiven hmean, hnone, List.forall_mem_nil _, List.forall_mem_singleton.mpr hp⟩
  case poisson hrate =>
    cases hchecked
    exact ⟨hnone, hnone, hnone, List.forall_mem_singleton.mpr hrate, List.forall_mem_nil _⟩
  case exponential hrate hmean =>
    cases hchecked
    exact ⟨hnone, hgiven hmean, hnone, List.forall_mem_singleton.mpr hrate, List.forall_mem_nil _⟩
  case beta ha hb =>
    cases hchecked
    exact ⟨hnone, hnone, hnone, htwo ha hb, List.forall_mem_nil _⟩
  case gamma ha hb hmean =>
    cases hchecked
    exact ⟨hnone, hgiven hmean, hnone, htwo ha hb, List.forall_mem_nil _⟩
  case binomial hn hp hmean =>
    cases hchecked
    rw [(hn.toNat_toUInt64 hr).1] at hmean
    exact ⟨hnone, hgiven hmean, hnone, List.forall_mem_nil _, List.forall_mem_singleton.mpr hp⟩
  case betaBinomial hn ha hb hmean =>
    cases hchecked
    rw [(hn.toNat_toUInt64 hr).1] at hmean
    exact ⟨hnone, hgiven hmean, hnone, htwo ha hb, List.forall_mem_nil _⟩
  case cauchy hx hscale | laplace hx hscale | normal hx hscale =>
    cases hchecked
    exact ⟨hnone, hnone, hgiven hx, List.forall_mem_singleton.mpr hscale, List.forall_mem_nil _⟩
  case studentT hfreedom hx hscale =>
    cases hchecked
    exact ⟨hnone, hnone, hgiven hx, htwo hfreedom hscale, List.forall_mem_nil _⟩
  case uniform ha hb hends =>
    rw [Distribution.ofChecked, if_neg hends] at hchecked
    cases hchecked
    exact ⟨hgiven ⟨ha, lt_of_contains ha hb hends, hb⟩, hnone, hnone, List.forall_mem_nil _, List.forall_mem_nil _⟩
  case truncatedNormal hx hscale ha hb hends =>
    simp only [Distribution.ofChecked, if_neg hends] at hchecked
    split at hchecked
    · cases hchecked
    · cases hchecked
      exact ⟨hgiven ⟨ha, lt_of_contains ha hb hends, hb⟩, hnone, hgiven hx,
        List.forall_mem_singleton.mpr hscale, List.forall_mem_nil _⟩
  case discreteUniform ha hb hends =>
    have hsome := IsWhole.first_le_last hr ha hb hends
    have hmem {x : α} (hx : IsWhole r.first r.last x) : r.contains x = true :=
      hx.ofInt64_toInt64 hr hsome ▸ (hx.point_admits hr hsome).contains
    simp only [Distribution.ofChecked] at hchecked
    split at hchecked
    · cases hchecked
    · cases hchecked
      refine ⟨?_, hnone, hnone, List.forall_mem_nil _, List.forall_mem_nil _⟩
      rintro _ ⟨⟩
      change r.contains (Scalar.ofInt64 (Scalar.toInt64 _) : α) = true ∧
        (Scalar.ofInt64 (Scalar.toInt64 _) : α) < Scalar.ofInt64 (Scalar.toInt64 _) ∧
        r.contains (Scalar.ofInt64 (Scalar.toInt64 _) : α) = true
      rw [ha.ofInt64_toInt64 hr hsome, hb.ofInt64_toInt64 hr hsome]
      exact ⟨hmem ha, lt_of_contains (hmem ha) (hmem hb) hends, hmem hb⟩

variable [LawfulNaturals α] [LawfulUniform α] [LawfulLimits α]

/-- Whatever the range, the family and the words of the stream are, a distribution that is drawn is of the
family and suits the range. -/
theorem drawDistribution_suits {lower upper : α} (hr : ValueRange.ofBounds lower upper = .ok r) (f : Family) :
    (drawDistribution f r : Random σ _).AlwaysSome fun d => d.family = f ∧ d.Suits r := by
  have haccepted := ValueRange.isAccepted_of_ofBounds hr
  refine (drawDistribution_drawn haccepted f).mono fun drawn hdrawn d hd => ?_
  obtain ⟨values, hvalues, hbuild⟩ := hdrawn d hd
  exact ⟨Distribution.family_of_build hbuild, hvalues.suits haccepted hbuild⟩

section Normal

open Exact

/-- A range that is wide enough, although it may hold no integer, is never too narrow for a normal. -/
theorem drawDistribution_normal {x y : ℝ} (h : x < y) (hwide : 819 / 2 ^ 13 < y - x) :
    (drawDistribution .normal ⟨real x, real y⟩ : Random σ _).Always fun drawn =>
      ∃ mean deviation : ℝ, drawn = some (.normal (real mean) (real deviation)) := by
  have hspread : Scalar.max (ValueRange.width ⟨real x, real y⟩) (real (819 / 2 ^ 13)) = real (y - x) := by
    rw [ValueRange.width, real_sub, max_real, max_eq_left hwide.le]
  refine Random.Always.bind (P := fun values => ∃ mean deviation : ℝ,
    values = some [real mean, real deviation] ∧ 0 < deviation) ?_ ?_
  · unfold drawValues
    simp only [minPositive_eq, hspread]
    refine Random.Always.bind (uniform_real h) ?_
    rintro _ ⟨mean, rfl, -⟩
    refine Random.Always.bind (uniform_real hwide) ?_
    rintro _ ⟨deviation, rfl, hdeviation, -⟩
    exact Random.Always.of_pure ⟨mean, deviation, rfl, hdeviation.trans_lt' (by norm_num)⟩
  · rintro _ ⟨mean, deviation, rfl, hdeviation⟩
    have hfinite (z : ℝ) : Scalar.isFinite (real z) = true := isFinite_iff.mpr ⟨z, rfl⟩
    have hbuild : Distribution.build .normal [real mean, real deviation] none =
        .ok (.normal (real mean) (real deviation)) := by
      refine Distribution.build_eq_ok_iff.mpr ⟨rfl, fun _ => ?_, rfl⟩
      simp [Family.signature, checkLiteral, hfinite, zero_eq, hdeviation, pure, Except.pure]
    refine Random.Always.of_pure ⟨mean, deviation, ?_⟩
    rw [Option.bind_some, hbuild]
    rfl

/-- A normal that is drawn for a range without integers has its mean between the bounds. -/
theorem drawDistribution_normal_suits :
    ValueRange.ofBounds (real (1 / 4)) (real (1 / 2)) = .ok ⟨real (1 / 4), real (1 / 2)⟩ ∧
    ∃ mean deviation : ℝ,
      ((drawDistribution .normal ⟨real (1 / 4), real (1 / 2)⟩).run (Xoshiro.ofSeed 0)).1 =
        some (.normal (real mean) (real deviation)) ∧
      1 / 4 ≤ mean ∧ mean ≤ 1 / 2 ∧ 819 / 2 ^ 13 ≤ deviation := by
  have hr : ValueRange.ofBounds (real (1 / 4)) (real (1 / 2)) = .ok ⟨real (1 / 4), real (1 / 2)⟩ :=
    ValueRange.ofBounds_real (by norm_num) (by norm_num) (by norm_num)
  obtain ⟨mean, deviation, hdrawn⟩ := drawDistribution_normal (x := 1 / 4) (y := 1 / 2) (by norm_num)
    (by norm_num) (Xoshiro.ofSeed 0)
  obtain ⟨-, hsuits⟩ := drawDistribution_suits hr .normal (Xoshiro.ofSeed 0) _ hdrawn
  have hmean := ValueRange.contains_iff.mp (hsuits.location_mem (real mean) rfl)
  have hdeviation := hsuits.magnitude_ge (real deviation) (List.mem_singleton_self _)
  rw [minPositive_eq, real_le] at hdeviation
  exact ⟨hr, mean, deviation, hdrawn, real_le.mp hmean.1, real_le.mp hmean.2, hdeviation⟩

end Normal

end Belief

end InfoFlow
