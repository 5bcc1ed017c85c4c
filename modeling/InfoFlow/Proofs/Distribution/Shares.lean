import InfoFlow.Proofs.Distribution.Quantile
import InfoFlow.Proofs.Special.Gamma

namespace InfoFlow.Distribution

open Exact

variable {d : Distribution Exact} {j k l u : ℤ} {p mean : Exact}

/-- The words that whole numbers are turned into reach a number, or the support ends. -/
def IsCounted (d : Distribution Exact) (k : ℤ) : Prop :=
  Scalar.isInfinite d.support.upper = true → k < 2 ^ 64

theorem IsCounted.mono (hk : d.IsCounted k) (h : j ≤ k) : d.IsCounted j := fun hupper =>
  h.trans_lt (hk hupper)

theorem isCounted_of_lt (h : k < 2 ^ 64) : d.IsCounted k := fun _ => h

/-- A distribution on whole numbers that has the mass of each by how much its distribution function climbs
there. -/
structure HasMasses (d : Distribution Exact) : Prop where
  isDiscrete : d.isDiscrete = true
  isInteger_constant {x : Exact} : d = .constant x → Scalar.isInteger x = true
  climbs {k : ℤ} : d.IsCounted k →
    (d.cdf (real k) - d.cdf (real (k - 1)) == Scalar.exp (d.lnDensity (real k))) = true

section Supports

theorem exists_of_isInteger {x : Exact} (h : Scalar.isInteger x = true) : ∃ i : ℤ, x = real i := by
  cases x with
  | real x =>
    obtain ⟨i, rfl⟩ := (isInteger_real x).mp h
    exact ⟨i, rfl⟩
  | nan | negInfinity | infinity =>
    unfold Scalar.isInteger Scalar.fract Scalar.trunc at h
    split at h <;> exact absurd rfl (beq_iff.mp h).2

/-- The support of a distribution on whole numbers starts with one, and ends with one unless it is endless. -/
theorem HasMasses.exists_lower (h : d.HasMasses) : ∃ l : ℤ, d.support.lower = real l := by
  have hzero : (0 : Exact) = real (0 : ℤ) := by rw [zero_eq, Int.cast_zero]
  have hone : (1 : Exact) = real (1 : ℤ) := by rw [one_eq, Int.cast_one]
  have hdiscrete := h.isDiscrete
  cases d with
  | bernoulli | betaBinomial | binomial | poisson | categorical => exact ⟨0, hzero⟩
  | geometric => exact ⟨1, hone⟩
  | discreteUniform lower upper => exact ⟨lower.toInt, ofInt_eq lower.toInt⟩
  | constant x => exact exists_of_isInteger (h.isInteger_constant rfl)
  | beta | cauchy | exponential | gamma | laplace | normal | studentT | truncatedNormal | uniform =>
    cases hdiscrete

theorem HasMasses.upper_cases (h : d.HasMasses) : (∃ u : ℤ, d.support.upper = real u) ∨
    (∃ p, d = .geometric p) ∨ ∃ mean, d = .poisson mean := by
  have hone : (1 : Exact) = real (1 : ℤ) := by rw [one_eq, Int.cast_one]
  have hdiscrete := h.isDiscrete
  cases d with
  | bernoulli => exact .inl ⟨1, hone⟩
  | betaBinomial n | binomial n => exact .inl ⟨n.toNat, ofUInt64_eq n⟩
  | discreteUniform lower upper => exact .inl ⟨upper.toInt, ofInt_eq upper.toInt⟩
  | categorical weights => exact .inl ⟨(weights.size - 1 : ℕ), by rw [Int.cast_natCast]; rfl⟩
  | constant x => exact .inl (exists_of_isInteger (h.isInteger_constant rfl))
  | geometric p => exact .inr (.inl ⟨p, rfl⟩)
  | poisson mean => exact .inr (.inr ⟨mean, rfl⟩)
  | beta | cauchy | exponential | gamma | laplace | normal | studentT | truncatedNormal | uniform =>
    cases hdiscrete

theorem cdf_of_lt (hlower : d.support.lower = real l) (h : k < l) : d.cdf (real k) = real 0 := by
  have hlt : real k < d.support.lower := by
    rw [hlower, real_lt]
    exact_mod_cast h
  unfold cdf
  rw [if_neg (by simp), if_pos hlt, zero_eq]

theorem cdf_of_le (hlower : d.support.lower = real l) (hupper : d.support.upper = real u) (hl : l ≤ k)
    (hu : u ≤ k) : d.cdf (real k) = real 1 := by
  have hnot : ¬ real k < d.support.lower := by
    rw [hlower, real_lt, not_lt]
    exact_mod_cast hl
  have hle : d.support.upper ≤ real k := by
    rw [hupper, real_le]
    exact_mod_cast hu
  unfold cdf
  rw [if_neg (by simp), if_neg hnot, if_pos hle, one_eq]

end Supports

/-- What the distribution function answers for a whole number. -/
noncomputable def share (d : Distribution Exact) (k : ℤ) : ℝ := (d.cdf (real k)).toReal

namespace HasMasses

/-- From a share on, the distribution function climbs to a share that is not smaller, by the mass. An
infinite one would leave no mass for the number after it. -/
theorem exists_step (h : d.HasMasses) (hk : d.IsCounted (k + 1)) {a : ℝ}
    (ha : d.cdf (real (k - 1)) = real a) :
    ∃ b, d.cdf (real k) = real b ∧ a ≤ b ∧ Scalar.exp (d.lnDensity (real k)) = real (b - a) := by
  obtain ⟨hmass, hnumber⟩ := beq_iff.mp (h.climbs (hk.mono (Int.le_add_one le_rfl)))
  have hnonneg := LawfulExp.not_neg_exp (d.lnDensity (real k))
  rw [ha] at hmass hnumber
  cases hz : d.cdf (real k) with
  | real b =>
    rw [hz, real_sub] at hmass
    rw [← hmass, zero_eq, real_lt, not_lt, sub_nonneg] at hnonneg
    exact ⟨b, rfl, hnonneg, hmass.symm⟩
  | nan =>
    rw [hz] at hnumber
    exact absurd rfl hnumber
  | negInfinity =>
    rw [hz] at hmass
    exact absurd (lt_zero_iff.mpr (.inl hmass.symm)) hnonneg
  | infinity =>
    obtain ⟨hmass, hnumber⟩ := beq_iff.mp (h.climbs hk)
    have hnonneg := LawfulExp.not_neg_exp (d.lnDensity (real ↑(k + 1)))
    rw [Int.cast_add, Int.cast_one, add_sub_cancel_right, hz] at hmass hnumber
    cases hnext : d.cdf (real (k + 1)) with
    | nan | infinity =>
      rw [hnext] at hnumber
      exact absurd rfl hnumber
    | negInfinity | real =>
      rw [hnext] at hmass
      rw [Int.cast_add, Int.cast_one] at hnonneg
      exact absurd (lt_zero_iff.mpr (.inl hmass.symm)) hnonneg

/-- Counted numbers have shares. -/
theorem exists_share (h : d.HasMasses) (hk : d.IsCounted (k + 1)) :
    ∃ r, d.cdf (real k) = real r ∧ 0 ≤ r := by
  obtain ⟨l, hl⟩ := h.exists_lower
  by_cases hlt : k < l
  · exact ⟨0, cdf_of_lt hl hlt, le_rfl⟩
  induction k, (show l - 1 ≤ k by omega) using Int.leInduction with
  | base => exact ⟨0, cdf_of_lt hl (by omega), le_rfl⟩
  | succ k hle ih =>
    obtain ⟨a, ha, hnonneg⟩ : ∃ r, d.cdf (real k) = real r ∧ 0 ≤ r := by
      by_cases hbelow : k < l
      · exact ⟨0, cdf_of_lt hl hbelow, le_rfl⟩
      · exact ih (hk.mono (by omega)) hbelow
    obtain ⟨b, hb, hab, _⟩ := h.exists_step hk (a := a) (by push_cast; simpa using ha)
    exact ⟨b, hb, hnonneg.trans hab⟩

theorem cdf_eq (h : d.HasMasses) (hk : d.IsCounted (k + 1)) : d.cdf (real k) = real (d.share k) := by
  obtain ⟨r, hr, _⟩ := h.exists_share hk
  rw [share, hr]
  rfl

theorem share_nonneg (h : d.HasMasses) (hk : d.IsCounted (k + 1)) : 0 ≤ d.share k := by
  obtain ⟨r, hr, hnonneg⟩ := h.exists_share hk
  rwa [share, hr]

/-- The mass of a number is what its share has more than the one before. -/
theorem exp_lnDensity_eq (h : d.HasMasses) (hk : d.IsCounted (k + 1)) :
    Scalar.exp (d.lnDensity (real k)) = real (d.share k - d.share (k - 1)) ∧
      d.share (k - 1) ≤ d.share k := by
  have hbefore := h.cdf_eq (k := k - 1) (hk.mono (by omega))
  rw [Int.cast_sub, Int.cast_one] at hbefore
  obtain ⟨b, hb, hle, hmass⟩ := h.exists_step hk hbefore
  have hshare : d.share k = b := by
    rw [share, hb]
    rfl
  rw [hshare]
  exact ⟨hmass, hle⟩

theorem share_mono (h : d.HasMasses) (hk : d.IsCounted (k + 1)) (hjk : j ≤ k) :
    d.share j ≤ d.share k := by
  induction k, hjk using Int.leInduction with
  | base => exact le_rfl
  | succ k hle ih =>
    have hstep := (h.exp_lnDensity_eq hk).2
    rw [add_sub_cancel_right] at hstep
    exact (ih (hk.mono (by omega))).trans hstep

end HasMasses

section Endless

variable {r : ℝ}

/-- One less an exponential is at most 1. -/
theorem le_one_of_neg_expMinusOne {z : Exact} (h : -Scalar.expMinusOne z = real r) : r ≤ 1 := by
  cases z with
  | real x =>
    have hexp : Scalar.expMinusOne (real x) = real (Real.exp x - 1) := by
      have hpos := Real.exp_pos x
      unfold Scalar.expMinusOne
      simp only [exp_real, one_eq, real_beq, neg_real, real_sub]
      by_cases hx : x = 0
      · simp [hx]
      · have hlog : Real.log (Real.exp x) = x := Real.log_exp x
        have hnotOne : ¬ Real.exp x = 1 := fun heq => hx (by rw [← hlog, heq, Real.log_one])
        have hnotMinusOne : ¬ Real.exp x - 1 = -1 := by linarith
        simp only [hnotOne, hnotMinusOne, decide_false, Bool.false_eq_true, if_false]
        rw [log_real hpos, hlog, real_mul, real_div hx, mul_div_cancel_right₀ _ hx]
    rw [hexp, neg_real] at h
    cases h
    linarith [Real.exp_pos x]
  | negInfinity =>
    have hexp : Scalar.expMinusOne negInfinity = real (-1) := by
      have hzero : Scalar.exp negInfinity = real 0 := rfl
      unfold Scalar.expMinusOne
      simp [hzero, one_eq]
    rw [hexp, neg_real] at h
    cases h
    norm_num
  | nan =>
    unfold Scalar.expMinusOne at h
    simp only at h
    split at h
    · cases h
    split at h <;> cases h
  | infinity =>
    unfold Scalar.expMinusOne at h
    simp only at h
    split at h
    · cases h
    split at h <;> cases h

theorem le_one_of_cdf_geometric (h : (geometric p).cdf (real k) = real r) : r ≤ 1 := by
  have hzero (h : 0 = real r) : r ≤ 1 := by
    rw [zero_eq] at h
    cases h
    exact zero_le_one
  unfold cdf at h
  split at h
  · cases h
  split at h
  · exact hzero h
  split at h
  · rw [one_eq] at h
    cases h
    exact le_rfl
  simp only [hasClosedForm, closedCdf, closedCount, if_true] at h
  split at h
  · exact hzero h
  unfold Geometric.cdf at h
  split at h
  · exact hzero h
  · exact le_one_of_neg_expMinusOne h

theorem cdf_poisson (hk : 0 ≤ k) (hlt : k < 2 ^ 64) :
    (poisson mean).cdf (real k) = Special.gammaUpper (real (k + 1)) mean := by
  have hlower : (poisson mean).support.lower = real 0 := zero_eq
  have hnot : ¬ real k < (0 : Exact) := by
    rw [zero_eq, real_lt, not_lt]
    exact_mod_cast hk
  have hupper : ¬ (poisson mean).support.upper ≤ real k := not_infinity_le_real _
  have hword : ((Scalar.toUInt64 (Scalar.floor (real k))).toNat : ℤ) = k := by
    rw [floor_real, Int.floor_intCast, toNat_toUInt64]
    exact toWord_intCast hk (by omega)
  unfold cdf
  rw [if_neg (by simp), hlower, ← zero_eq, if_neg hnot, if_neg hupper]
  simp only [hasClosedForm, closedCdf, closedCount, if_true, if_neg hnot, Poisson.cdf]
  rw [ofUInt64_eq, hword, one_eq, real_add]

/-- Poisson distributions have positive means. -/
theorem exists_mean {a : ℝ} (h : Special.gammaUpper (real a) mean = real r) :
    ∃ μ, mean = real μ ∧ 0 < μ := by
  unfold Special.gammaUpper at h
  split at h
  · cases h
  rename_i hinside
  simp only [Bool.not_eq_true', Bool.and_eq_false_iff, decide_eq_false_iff_not, not_or, not_not]
    at hinside
  obtain ⟨⟨⟨_, _⟩, hpos⟩, hfinite⟩ := hinside
  rcases zero_lt_iff.mp hpos with rfl | ⟨μ, rfl, hμ⟩
  · cases hfinite
  · exact ⟨μ, rfl, hμ⟩

/-- A mean beyond the words leaves no share to the first half of them. -/
theorem cdf_poisson_eq_zero {μ : ℝ} (hμ : 2 ^ 63 < μ) :
    (poisson (real μ)).cdf (real (2 ^ 54 - 1 : ℤ)) = real 0 := by
  have hlog : Real.log μ ≤ Real.log (2 ^ 63) + (μ / 2 ^ 63 - 1) := by
    have hratio := Real.log_le_sub_one_of_pos (x := μ / 2 ^ 63) (by positivity)
    rw [Real.log_div (by positivity) (by positivity)] at hratio
    linarith
  have htwo : Real.log (2 ^ 63) ≤ 63 := by
    rw [Real.log_pow]
    have := Real.log_two_lt_d9
    norm_num
    linarith
  rw [cdf_poisson (by norm_num) (by norm_num)]
  have harg : ((2 ^ 54 - 1 : ℤ) : ℝ) + 1 = 2 ^ 54 := by norm_num
  rw [harg]
  refine Special.gammaUpper_eq_zero (by norm_num) (lt_trans (by norm_num) hμ) ?_
  have hproduct := mul_le_mul_of_nonneg_left (hlog.trans (add_le_add_left htwo _))
    (by positivity : (0 : ℝ) ≤ 2 ^ 54)
  norm_num at hproduct hμ ⊢
  linarith

end Endless

/-- No share is larger than the whole. -/
theorem HasMasses.share_le_one (h : d.HasMasses) (hk : k ≤ 2 ^ 53) : d.share k ≤ 1 := by
  obtain ⟨l, hlower⟩ := h.exists_lower
  obtain ⟨u, hupper⟩ | ⟨p, rfl⟩ | ⟨mean, rfl⟩ := h.upper_cases
  · have hends (m : ℤ) : d.IsCounted m := by
      intro hinfinite
      rw [hupper] at hinfinite
      simp [Scalar.isInfinite] at hinfinite
    have hone : d.share (max k (max l u)) = 1 := by
      rw [share, cdf_of_le hlower hupper (by omega) (by omega)]
      rfl
    exact hone ▸ h.share_mono (hends _) (le_max_left _ _)
  · exact le_one_of_cdf_geometric (h.cdf_eq (isCounted_of_lt (by omega)))
  · have hcdf := h.cdf_eq (k := 2 ^ 63) (isCounted_of_lt (by norm_num))
    rw [cdf_poisson (by norm_num) (by norm_num)] at hcdf
    obtain ⟨μ, rfl, hpos⟩ := exists_mean hcdf
    by_cases hμ : μ ≤ 2 ^ 63
    · -- the mean is one of the words, from which on shares are one minus a series
      have hone := Special.gammaUpper_le_one (by positivity) hpos (by push_cast; linarith) hcdf
      exact (h.share_mono (isCounted_of_lt (by norm_num)) (by omega)).trans hone
    · have hnone : (poisson (real μ)).share (2 ^ 54 - 1) = 0 := by
        rw [share, cdf_poisson_eq_zero (not_le.mp hμ)]
        rfl
      have hmono := h.share_mono (j := k) (k := 2 ^ 54 - 1) (isCounted_of_lt (by norm_num)) (by omega)
      rw [hnone] at hmono
      exact hmono.trans zero_le_one

section Uniform

variable {lower upper : Int64} {k : ℤ}

/-- From the number before the first one to the last one, uniform shares are counts. -/
theorem uniformShare_of_between {lower upper : ℤ} (hlow : lower - 1 ≤ k) (hhigh : k ≤ upper)
    (hle : lower ≤ upper) : uniformShare lower upper k = ((k : ℝ) - lower + 1) / (upper - lower + 1) := by
  have hwidth : (0 : ℝ) < upper - lower + 1 := by exact_mod_cast (by omega : 0 < upper - lower + 1)
  simp only [uniformShare, Int.cast_lt, Int.cast_le, Int.floor_intCast]
  split
  · obtain rfl : k = lower - 1 := by omega
    simp
  · split
    · obtain rfl : k = upper := by omega
      rw [div_self hwidth.ne']
    · rfl

theorem uniformShare_sub {lower upper : ℤ} (hle : lower ≤ upper) (k : ℤ) :
    uniformShare lower upper k - uniformShare lower upper (k - 1) =
      if lower ≤ k ∧ k ≤ upper then 1 / ((upper : ℝ) - lower + 1) else 0 := by
  have hbefore : ((k : ℝ) - 1) = ((k - 1 : ℤ) : ℝ) := by push_cast; rfl
  rw [hbefore]
  split
  · rename_i h
    rw [uniformShare_of_between (by omega) h.2 hle,
      uniformShare_of_between (k := k - 1) (by omega) (by omega) hle]
    push_cast
    ring
  · rename_i h
    simp only [uniformShare, Int.cast_lt, Int.cast_le]
    by_cases hlow : k < lower
    · rw [if_pos hlow, if_pos (by omega), sub_zero]
    · rw [if_neg hlow, if_pos (by omega), if_neg (by omega), if_pos (by omega), sub_self]

/-- Each whole number between two bounds has the same mass, and others have none. -/
theorem exp_lnDensity_discreteUniform (hle : lower.toInt ≤ upper.toInt)
    (hwidth : upper.toInt - lower.toInt + 1 < 2 ^ 63) (k : ℤ) :
    Scalar.exp ((discreteUniform lower upper : Distribution Exact).lnDensity (real k)) =
      real (if lower.toInt ≤ k ∧ k ≤ upper.toInt then 1 / ((upper.toInt : ℝ) - lower.toInt + 1) else 0) := by
  have hone : (1 : Int64).toInt = 1 := rfl
  have hword : (upper - lower + 1).toInt = upper.toInt - lower.toInt + 1 := by
    have hdistance : (upper - lower).toInt = upper.toInt - lower.toInt := by
      rw [Int64.toInt_sub, Int.bmod_eq_of_le (by omega) (by omega)]
    rw [Int64.toInt_add, hdistance, hone, Int.bmod_eq_of_le (by omega) (by omega)]
  have hpos : (0 : ℝ) < upper.toInt - lower.toInt + 1 := by
    exact_mod_cast (by omega : 0 < upper.toInt - lower.toInt + 1)
  have hcontains : (discreteUniform lower upper : Distribution Exact).support.contains (real k) = true ↔
      lower.toInt ≤ k ∧ k ≤ upper.toInt := by
    rw [contains_discreteUniform, real_le, real_le, Int.cast_le, Int.cast_le]
    exact and_iff_left (isInteger_intCast k)
  have hnumber : Scalar.isNaN (real k) = false := by
    rw [← Bool.not_eq_true, isNaN_iff]
    nofun
  unfold lnDensity
  by_cases hk : lower.toInt ≤ k ∧ k ≤ upper.toInt
  · rw [if_neg (by simp [hnumber, hcontains.mpr hk]), if_pos hk]
    change Scalar.exp (-Scalar.log (Scalar.ofInt (upper - lower + 1).toInt)) = _
    rw [ofInt_eq, hword, Int.cast_add, Int.cast_sub, Int.cast_one, log_real hpos, neg_real, exp_real,
      Real.exp_neg, Real.exp_log hpos, one_div]
  · rw [if_pos (by simp [mt hcontains.mp hk]), if_neg hk]
    rfl

/-- Uniform distributions on whole numbers have masses. -/
theorem hasMasses_discreteUniform (hle : lower.toInt ≤ upper.toInt)
    (hwidth : upper.toInt - lower.toInt + 1 < 2 ^ 63) :
    (discreteUniform lower upper : Distribution Exact).HasMasses where
  isDiscrete := rfl
  isInteger_constant := nofun
  climbs {k} _ := by
    rw [cdf_discreteUniform, cdf_discreteUniform, real_sub, uniformShare_sub hle,
      exp_lnDensity_discreteUniform hle hwidth, real_beq, decide_eq_true_iff]

end Uniform
end InfoFlow.Distribution
