import InfoFlow.Proofs.Belief.Coverage
import InfoFlow.Proofs.Distribution.Shares

namespace InfoFlow

open Exact

variable {d : Distribution Exact} {r : ValueRange Exact} {policy : CoveragePolicy Exact} {k : ℤ} {f : ℝ}
  {lower upper : Exact}

namespace ValueRange

/-- The integers of a range, however many they are. -/
def points (r : ValueRange Exact) : Set ℤ := {k | r.lower ≤ real k ∧ real k ≤ r.upper}

/-- Within the bounds of machine words, they are those from the first to the last one. -/
theorem points_eq_Icc (hlower : Scalar.IsBounded r.lower) (hupper : Scalar.IsBounded r.upper) :
    r.points = Set.Icc r.first r.last := by
  obtain ⟨lower, upper⟩ := r
  obtain ⟨a, rfl, halow, hahigh⟩ := real_of_isBounded hlower
  obtain ⟨b, rfl, hblow, hbhigh⟩ := real_of_isBounded hupper
  have hceil : -2 ^ 53 ≤ ⌈a⌉ ∧ ⌈a⌉ ≤ 2 ^ 53 :=
    ⟨by exact_mod_cast halow.trans (Int.le_ceil a), Int.ceil_le.mpr (by exact_mod_cast hahigh)⟩
  have hfloor : -2 ^ 53 ≤ ⌊b⌋ ∧ ⌊b⌋ ≤ 2 ^ 53 :=
    ⟨Int.le_floor.mpr (by exact_mod_cast hblow), by exact_mod_cast (Int.floor_le b).trans hbhigh⟩
  ext k
  rw [Set.mem_Icc, first, last, ceil_real, floor_real, toInt_toInt64, toInt_toInt64,
    toWord_intCast (by omega) (by omega), toWord_intCast (by omega) (by omega), Int.ceil_le, Int.le_floor]
  exact and_congr real_le real_le

/-- The first integers of a range are all of them, if there are not too many. -/
theorem mem_integers_of_encard_le {n : ℕ} (h : (Set.Icc r.first r.last).encard ≤ n)
    (hk : k ∈ Set.Icc r.first r.last) : k ∈ r.integers n := by
  rw [← Finset.coe_Icc, Set.encard_coe_eq_coe_finsetCard, Int.card_Icc, Nat.cast_le] at h
  obtain ⟨hfirst, hlast⟩ := hk
  rw [integers_eq, List.mem_map]
  refine ⟨(k - r.first).toNat, List.mem_range.mpr ?_, ?_⟩ <;> omega

end ValueRange

namespace Distribution

/-- The quantile of a share between 0 and 1 is the least integer where the distribution function reaches it. -/
def HasLeastQuantile (d : Distribution Exact) (q : Exact) : Prop :=
  0 < q → q < 1 → ∃ i : ℤ, d.quantile q = real i ∧ IsLeast {j : ℤ | q ≤ d.cdf (real j)} i

/-- Least numbers of the support are least among all integers: below it nothing is reached. -/
theorem HasLeastQuantile.of_isQuantile {q : Exact} (hs : IsCounting d.support)
    (h : d.IsQuantile q (d.quantile q)) : d.HasLeastQuantile q := by
  intro hpos _
  have hcontains (x : Exact) : d.support.contains x = true ↔
      (d.support.lower ≤ x ∧ x ≤ d.support.upper) ∧ Scalar.isInteger x = true := by
    simp [Support.contains, hs.isDiscrete]
  obtain ⟨⟨-, hupper⟩, hinteger⟩ := (hcontains _).mp h.contains
  obtain ⟨i, hi⟩ := exists_of_isInteger hinteger
  have hreached : q ≤ d.cdf (real i) := hi ▸ h.reached
  refine ⟨i, hi, hreached, fun j hj => ?_⟩
  have hj : q ≤ d.cdf (real j) := hj
  have hnumber : Scalar.isNaN (real j) = false := (Scalar.isFinite_iff.mp (isFinite_iff.mpr ⟨_, rfl⟩)).1
  have hlower : ¬ real j < d.support.lower := by
    intro hlt
    unfold cdf at hj
    rw [if_neg (by simp [hnumber]), if_pos hlt] at hj
    exact Scalar.not_le_of_lt hpos hj
  have hle : d.quantile q ≤ real j := by
    by_cases hinside : real j ≤ d.support.upper
    · refine h.least ((hcontains _).mpr ⟨⟨?_, hinside⟩, isInteger_intCast j⟩) hj
      exact Scalar.le_of_not_lt hnumber (Scalar.isFinite_iff.mp hs.isFinite_lower).1 hlower
    · exact LawfulOrder.le_trans hupper (Scalar.le_of_lt
        (Scalar.lt_of_not_le hnumber (LawfulBounds.isNaN_of_le hupper).2 hinside))
  rw [hi, real_le] at hle
  exact_mod_cast hle

/-- No point holds more than the whole mass. -/
theorem HasMasses.floor_le_one (hd : d.HasMasses) (hk : k ≤ 2 ^ 53)
    (hcovered : real f ≤ Scalar.exp (d.lnDensity (real k))) : f ≤ 1 := by
  have hcounted : d.IsCounted (k + 1) := isCounted_of_lt (by omega)
  have hbefore := hd.share_nonneg (k := k - 1) (hcounted.mono (by omega))
  rw [(hd.exp_lnDensity_eq hcounted).1, real_le] at hcovered
  linarith [hd.share_le_one hk]

/-- A point with some mass lies between the quantiles of half of it at both ends. -/
theorem HasMasses.between_quantiles (hd : d.HasMasses) (hfirst : d.HasLeastQuantile (real (1 / 2 * f)))
    (hlast : d.HasLeastQuantile (real (1 - 1 / 2 * f))) (hf : 0 < f) (hk : k ≤ 2 ^ 53)
    (hcovered : real f ≤ Scalar.exp (d.lnDensity (real k))) :
    ∃ i j : ℤ, d.quantile (real (1 / 2 * f)) = real i ∧ d.quantile (real (1 - 1 / 2 * f)) = real j ∧
      i ≤ k ∧ k ≤ j := by
  have hle := hd.floor_le_one hk hcovered
  have hshare := hd.share_le_one hk
  have hinside {q : ℝ} (hpos : 0 < q) (hlt : q < 1) : 0 < real q ∧ real q < 1 :=
    ⟨zero_lt_iff.mpr (.inr ⟨q, rfl, hpos⟩), by rwa [one_eq, real_lt]⟩
  have hhalf := hinside (q := 1 / 2 * f) (by linarith) (by linarith)
  have hrest := hinside (q := 1 - 1 / 2 * f) (by linarith) (by linarith)
  obtain ⟨i, hi, -, hleast⟩ := hfirst hhalf.1 hhalf.2
  obtain ⟨j, hj, hreached, -⟩ := hlast hrest.1 hrest.2
  have hcounted : d.IsCounted (k + 1) := isCounted_of_lt (by omega)
  have hbefore := hd.share_nonneg (k := k - 1) (hcounted.mono (by omega))
  rw [(hd.exp_lnDensity_eq hcounted).1, real_le] at hcovered
  have hreachedk : real (1 / 2 * f) ≤ d.cdf (real k) := by
    rw [hd.cdf_eq hcounted, real_le]
    linarith
  refine ⟨i, j, hi, hj, hleast hreachedk, ?_⟩
  · -- otherwise the share of the point before would reach the second quantile
    by_contra hnot
    have hreached : real (1 - 1 / 2 * f) ≤ d.cdf (real j) := hreached
    rw [hd.cdf_eq (hcounted.mono (by omega)), real_le] at hreached
    have hmono := hd.share_mono (j := j) (k := k - 1) (hcounted.mono (by omega)) (by omega)
    linarith

end Distribution

section Window

/-- The window is what lies in the range and between the quantiles. -/
theorem massWindow_eq {i j : ℤ} {a b : ℝ} (hfirst : d.quantile (real (1 / 2 * f)) = real i)
    (hlast : d.quantile (real (1 - 1 / 2 * f)) = real j) (hle : max (i : ℝ) a ≤ min (j : ℝ) b) :
    massWindow d ⟨real a, real b⟩ (real f) = ⟨real (max i a), real (min j b)⟩ := by
  have hnumber (x : ℝ) : Scalar.isNaN (real x) = false := by
    rw [← Bool.not_eq_true, isNaN_iff]
    nofun
  unfold massWindow
  rw [half_eq, one_eq, real_mul, real_sub, hfirst, hlast]
  simp only [hnumber, Bool.false_eq_true, if_false, max_real, min_real, real_le, if_pos hle]

/-- Every integer of the range that holds enough mass is looked at. -/
theorem mem_candidatePoints_of_covered (hd : d.HasMasses)
    (hfirst : d.HasLeastQuantile (0.5 * policy.massFloor))
    (hlast : d.HasLeastQuantile (1 - 0.5 * policy.massFloor))
    (hr : r.IsAccepted) (hpoints : r.points.encard ≤ policy.maxPoints.toNat)
    (hpos : 0 < policy.massFloor) (hk : k ∈ r.points)
    (hcovered : policy.massFloor ≤ Scalar.exp (d.lnDensity (real k))) : k ∈ candidatePoints d r policy := by
  obtain ⟨lower, upper⟩ := r
  obtain ⟨a, rfl, halow, hahigh⟩ := real_of_isBounded hr.isBounded_lower
  obtain ⟨b, rfl, hblow, hbhigh⟩ := real_of_isBounded hr.isBounded_upper
  obtain ⟨hak, hkb⟩ := hk
  rw [real_le] at hak hkb
  have hsmall : k ≤ 2 ^ 53 := by exact_mod_cast hkb.trans hbhigh
  obtain ⟨f, hfloor, hf⟩ : ∃ f, policy.massFloor = real f ∧ 0 < f := by
    rcases zero_lt_iff.mp hpos with hinfinite | hreal
    · -- no mass is infinite
      rw [hinfinite, (hd.exp_lnDensity_eq (Distribution.isCounted_of_lt (by omega))).1] at hcovered
      exact absurd hcovered (not_infinity_le_real _)
    · exact hreal
  rw [hfloor] at hcovered hfirst hlast
  rw [half_eq, real_mul] at hfirst hlast
  rw [one_eq, real_sub] at hlast
  obtain ⟨i, j, hi, hj, hik, hkj⟩ := hd.between_quantiles hfirst hlast hf hsmall hcovered
  have hik : (i : ℝ) ≤ k := by exact_mod_cast hik
  have hkj : (k : ℝ) ≤ j := by exact_mod_cast hkj
  have hlow : max (i : ℝ) a ≤ k := max_le hik hak
  have hhigh : (k : ℝ) ≤ min (j : ℝ) b := le_min hkj hkb
  have hwindow := massWindow_eq (a := a) (b := b) hi hj (hlow.trans hhigh)
  have heq : ValueRange.points ⟨real (max (i : ℝ) a), real (min (j : ℝ) b)⟩ = Set.Icc _ _ :=
    ValueRange.points_eq_Icc
      (isBounded_real (halow.trans (le_max_right _ _)) (hlow.trans (hkb.trans hbhigh)))
      (isBounded_real (halow.trans (hak.trans hhigh)) ((min_le_right _ _).trans hbhigh))
  have hsubset : ValueRange.points ⟨real (max (i : ℝ) a), real (min (j : ℝ) b)⟩ ⊆
      ValueRange.points ⟨real a, real b⟩ := fun m ⟨hm, hm'⟩ =>
    ⟨real_le.mpr ((le_max_right _ _).trans (real_le.mp hm)),
      real_le.mpr ((real_le.mp hm').trans (min_le_right _ _))⟩
  unfold candidatePoints
  rw [hfloor, hwindow]
  refine ValueRange.mem_integers_of_encard_le ?_ ?_
  · rw [← heq]
    exact (Set.encard_le_encard hsubset).trans hpoints
  · rw [← heq]
    exact ⟨real_le.mpr hlow, real_le.mpr hhigh⟩

/-- Looking at the window only, coverage counts every integer of the range that holds enough mass. -/
theorem coverage_eq_encard (hd : d.HasMasses) (hfirst : d.HasLeastQuantile (0.5 * policy.massFloor))
    (hlast : d.HasLeastQuantile (1 - 0.5 * policy.massFloor)) (hr : ValueRange.ofBounds lower upper = .ok r)
    (hpoints : r.points.encard ≤ policy.maxPoints.toNat) (hpos : 0 < policy.massFloor) :
    (coverage d r none policy : ℕ∞) =
      {k ∈ r.points | policy.massFloor ≤ Scalar.exp (d.lnDensity (real k))}.encard := by
  have haccepted := ValueRange.isAccepted_of_ofBounds hr
  have hcovered (k : ℤ) : isCoveredPoint d policy k = true ↔
      policy.massFloor ≤ Scalar.exp (d.lnDensity (real k)) := by
    unfold isCoveredPoint
    rw [decide_eq_true_iff, ofInt_eq]
  have hset : {k ∈ r.points | policy.massFloor ≤ Scalar.exp (d.lnDensity (real k))} =
      ((candidatePoints d r policy).filter (isCoveredPoint d policy)).toFinset := by
    ext k
    rw [Finset.mem_coe, List.mem_toFinset, List.mem_filter, hcovered]
    refine ⟨fun ⟨hk, hmass⟩ => ?_, fun ⟨hk, hmass⟩ => ?_⟩
    · exact ⟨mem_candidatePoints_of_covered hd hfirst hlast haccepted hpoints hpos hk hmass, hmass⟩
    · obtain ⟨-, hlow, hhigh, -⟩ := mem_candidatePoints haccepted hk
      rw [ofInt_eq] at hlow hhigh
      exact ⟨⟨hlow, hhigh⟩, hmass⟩
  have hnodup : (candidatePoints d r policy).Nodup := ValueRange.nodup_integers _ _
  unfold coverage
  rw [if_pos hd.isDiscrete, hset, Set.encard_coe_eq_coe_finsetCard,
    List.toFinset_card_of_nodup (hnodup.filter _), List.countP_eq_length_filter]

/-- A twentieth of the mass counts, and a range may hold a hundred integers. -/
noncomputable def digitPolicy : CoveragePolicy Exact := ⟨5, real (1 / 20), 100, 100⟩

/-- Of the integers from -1 to 6, seven are digits, which hold a tenth of the mass each. -/
theorem coverage_tenDigits : ∃ (d : Distribution Exact) (r : ValueRange Exact),
    Distribution.build .discreteUniform [real 0, real 9] none = .ok d ∧ d.HasMasses ∧
      d.HasLeastQuantile (0.5 * digitPolicy.massFloor) ∧
      d.HasLeastQuantile (1 - 0.5 * digitPolicy.massFloor) ∧
      ValueRange.ofBounds (real (-3 / 2)) (real (13 / 2)) = .ok r ∧
      r.points.encard ≤ digitPolicy.maxPoints.toNat ∧ 0 < digitPolicy.massFloor ∧
      (coverage d r none digitPolicy : ℕ∞) =
        {k ∈ r.points | digitPolicy.massFloor ≤ Scalar.exp (d.lnDensity (real k))}.encard ∧
      coverage d r none digitPolicy = 7 := by
  obtain ⟨lower, upper, hzero, hnine, hbuild⟩ := Distribution.build_tenDigits
  have hmasses : (Distribution.discreteUniform lower upper : Distribution Exact).HasMasses :=
    Distribution.hasMasses_discreteUniform (by omega) (by omega)
  have hquantile (q : Exact) :
      (Distribution.discreteUniform lower upper : Distribution Exact).HasLeastQuantile q := by
    intro hpos hlt
    have hcounting := Distribution.isCounting_support hbuild rfl nofun
    have hstairs : (Distribution.discreteUniform lower upper).IsStaircase q :=
      Distribution.isStaircase_discreteUniform (by omega) (by rw [hzero]; norm_num)
        (by rw [hnine]; norm_num) q
    exact Distribution.HasLeastQuantile.of_isQuantile hcounting
      (Distribution.isQuantile_of_isCounting hcounting hstairs hpos hlt) hpos hlt
  have hrange := ValueRange.ofBounds_real (x := -3 / 2) (y := 13 / 2) (by norm_num)
    (by norm_num [abs_le]) (by norm_num [abs_le])
  have hpoints : ValueRange.points ⟨real (-3 / 2), real (13 / 2)⟩ = Set.Icc (-1) 6 := by
    ext k
    change real _ ≤ real _ ∧ real _ ≤ real _ ↔ _
    rw [real_le, real_le, ← Int.ceil_le, ← Int.le_floor]
    norm_num
  have hfew : (ValueRange.points ⟨real (-3 / 2), real (13 / 2)⟩).encard ≤
      digitPolicy.maxPoints.toNat := by
    rw [hpoints, ← Finset.coe_Icc, Set.encard_coe_eq_coe_finsetCard]
    decide
  have hfloor : 0 < digitPolicy.massFloor := zero_lt_iff.mpr (.inr ⟨_, rfl, by norm_num⟩)
  have hcoverage := coverage_eq_encard hmasses (hquantile _) (hquantile _) hrange hfew hfloor
  refine ⟨_, _, hbuild, hmasses, hquantile _, hquantile _, hrange, hfew, hfloor, hcoverage, ?_⟩
  have hset : {k ∈ ValueRange.points ⟨real (-3 / 2), real (13 / 2)⟩ | digitPolicy.massFloor ≤ Scalar.exp
      ((Distribution.discreteUniform lower upper : Distribution Exact).lnDensity (real k))} =
      Finset.Icc (0 : ℤ) 6 := by
    ext k
    rw [Set.mem_sep_iff, hpoints, Finset.coe_Icc, Set.mem_Icc, Set.mem_Icc,
      Distribution.exp_lnDensity_discreteUniform (by omega) (by omega), hzero, hnine]
    change _ ∧ real (1 / 20) ≤ _ ↔ _
    rw [real_le]
    split <;> norm_num <;> omega
  rw [hset, Set.encard_coe_eq_coe_finsetCard, Nat.cast_inj] at hcoverage
  exact hcoverage

end Window

end InfoFlow
