import InfoFlow.Proofs.Scalar.Bounds
import InfoFlow.Special.Gamma

namespace InfoFlow.Special

open Exact

section Series

variable {a x r : ℝ}

/-- No term of the series is negative. -/
theorem le_gammaSeries (hx : 0 ≤ x) (n : ℕ) {r term sum : ℝ} (hr : 0 ≤ r) (hterm : 0 ≤ term)
    (hsum : 0 < sum) :
    ∃ s, gammaSeries (real x) n (real r) (real term) (real sum) = real s ∧ sum ≤ s := by
  induction n generalizing r term sum with
  | zero => exact ⟨sum, rfl, le_rfl⟩
  | succ n ih =>
    have hr' : 0 < r + 1 := by linarith
    have hterm' : 0 ≤ term * (x / (r + 1)) := by positivity
    have hsum' : 0 < sum + term * (x / (r + 1)) := by linarith
    unfold gammaSeries
    simp only [one_eq, real_add, real_div hr'.ne', real_mul]
    split
    · exact ⟨_, rfl, by linarith⟩
    · obtain ⟨s, hs, hle⟩ := ih hr'.le hterm' hsum'
      exact ⟨s, hs, by linarith⟩

theorem not_neg_div {z : Exact} (hz : ¬ z < 0) (ha : 0 < a) : ¬ z / real a < 0 := by
  cases z with
  | nan => exact id
  | negInfinity => exact absurd (lt_zero_iff.mpr (.inl rfl)) hz
  | real y =>
    rw [zero_eq, real_lt, not_lt] at hz
    rw [real_div ha.ne', zero_eq, real_lt, not_lt]
    positivity
  | infinity =>
    change ¬ (if a < 0 then negInfinity else infinity) < 0
    rw [if_neg ha.not_gt]
    exact id

/-- Both functions accept positive arguments. -/
theorem not_outside (ha : 0 < a) (hx : 0 < x) : ¬ (!(decide ((0 : Exact) < real a) &&
    decide (real a < Scalar.infinity) && decide ((0 : Exact) < real x) &&
    decide (real x < Scalar.infinity))) = true := by
  have hinside : (0 < real a ∧ real a < infinity) ∧ 0 < real x ∧ real x < infinity := by
    rw [zero_eq, real_lt, real_lt]
    exact ⟨⟨ha, trivial⟩, hx, trivial⟩
  simp [hinside]

/-- The lower function is not negative where it is a series. -/
theorem not_gammaLower_neg (ha : 0 < a) (hx : 0 < x) (hle : x ≤ a) :
    ¬ gammaLower (real a) (real x) < 0 := by
  have hzero : ¬ (0 : Exact) < 0 := by
    rw [zero_eq, real_lt]
    exact lt_irrefl 0
  have hone : ¬ (1 : Exact) < 0 := by
    rw [zero_eq, one_eq, real_lt]
    norm_num
  obtain ⟨s, hs, hge⟩ := le_gammaSeries hx.le terms ha.le zero_le_one zero_lt_one
  have hs' : ¬ real s < 0 := by
    rw [zero_eq, real_lt]
    linarith
  unfold gammaLower
  rw [if_neg (not_outside ha hx)]
  split
  · exact hone
  split
  · exact hzero
  by_cases hsmall : real a * Scalar.log (real x) - real x - lnGamma (real a) < underflow
  · simp only [if_pos hsmall]
    split
    · exact hone
    · exact hzero
  · have hseries : (decide (real x ≤ 1) || decide (real x ≤ real a)) = true := by simp [hle]
    simp only [if_neg hsmall]
    rw [if_pos hseries, one_eq, hs]
    exact not_neg_div (LawfulScalar.not_neg_mul (LawfulExp.not_neg_exp _) hs') ha

/-- The upper function is at most 1 where the second argument is not beyond the first one. -/
theorem gammaUpper_le_one (ha : 0 < a) (hx : 0 < x) (hle : x ≤ a)
    (h : gammaUpper (real a) (real x) = real r) : r ≤ 1 := by
  have hnear : (decide (real x < 1) || decide (real x ≤ real a)) = true := by simp [hle]
  have hlower := not_gammaLower_neg ha hx hle
  unfold gammaUpper at h
  rw [if_neg (not_outside ha hx), if_pos hnear, one_eq] at h
  cases hz : gammaLower (real a) (real x) with
  | real z =>
    rw [hz, zero_eq, real_lt] at hlower
    rw [hz, real_sub] at h
    cases h
    linarith
  | nan | negInfinity | infinity =>
    rw [hz] at h
    cases h

end Series

section Lanczos

variable {a x : ℝ}

/-- The coefficients of the Lanczos series are small. -/
theorem exists_lanczosRest {c : Float} (hc : c ∈ lanczosRest) : ∃ y, Exact.ofFloat c = real y ∧ |y| ≤ 8 := by
  have hall : lanczosRest.all (fun c => (Binary.ofFloat? c).any fun b =>
      decide (b.exponent ≤ 0 ∧ b.mantissa ≤ 8 * 2 ^ (-b.exponent).toNat)) = true := by
    decide +kernel
  obtain ⟨b, hb, hexponent, hmantissa⟩ : ∃ b, Binary.ofFloat? c = some b ∧ b.exponent ≤ 0 ∧
      b.mantissa ≤ 8 * 2 ^ (-b.exponent).toNat := by
    simpa [Option.any_eq_true] using List.all_eq_true.mp hall c hc
  obtain ⟨k, hk⟩ := Int.exists_eq_neg_ofNat hexponent
  have hvalue : (b.mantissa * 2 ^ b.exponent : ℝ) ≤ 8 := by
    rw [hk, zpow_neg, zpow_natCast, mul_inv_le_iff₀ (by positivity)]
    rw [hk, neg_neg, Int.toNat_natCast] at hmantissa
    exact_mod_cast hmantissa
  have hnonneg : (0 : ℝ) ≤ b.mantissa * 2 ^ b.exponent := by positivity
  unfold Exact.ofFloat
  rw [hb]
  cases Binary.isNegative c with
  | true => exact ⟨_, rfl, by rwa [abs_neg, abs_of_nonneg hnonneg]⟩
  | false => exact ⟨_, rfl, by rwa [abs_of_nonneg hnonneg]⟩

theorem foldl_lanczos (ha : 1 ≤ a) (cs : List Float) (hcs : ∀ c ∈ cs, c ∈ lanczosRest) {s i : ℝ}
    (hi : 1 ≤ i) : ∃ s' i', cs.foldl (fun (sum, j) c =>
      (sum + Scalar.ofFloat c / (real a + j - 1), j + 1)) (real s, real i) = (real s', i') ∧
      |s' - s| ≤ cs.length * (8 / a) := by
  induction cs generalizing s i with
  | nil => exact ⟨s, real i, rfl, by simp⟩
  | cons c cs ih =>
    obtain ⟨y, hy, hsmall⟩ := exists_lanczosRest (hcs c List.mem_cons_self)
    have hdenominator : a ≤ a + i - 1 := by linarith
    have hterm : |y / (a + i - 1)| ≤ 8 / a := by
      rw [abs_div, abs_of_pos (by linarith : 0 < a + i - 1)]
      exact div_le_div₀ (by norm_num) hsmall (by linarith) hdenominator
    obtain ⟨s', i', hfold, hnear⟩ := ih (fun c hc => hcs c (List.mem_cons_of_mem _ hc))
      (s := s + y / (a + i - 1)) (i := i + 1) (by linarith)
    refine ⟨s', i', ?_, ?_⟩
    · rw [List.foldl_cons, ← hfold]
      change cs.foldl _ (real s + Exact.ofFloat c / (real a + real i - 1), real i + 1) = _
      rw [hy, one_eq, real_add, real_add, real_sub, real_div (by linarith), real_add]
    · have habs := abs_add_le (s' - (s + y / (a + i - 1))) (y / (a + i - 1))
      rw [show s' - (s + y / (a + i - 1)) + y / (a + i - 1) = s' - s by ring] at habs
      push_cast [List.length_cons]
      linarith

/-- For a large argument, little more than the leading coefficient of the series is left. -/
theorem exists_lanczosSum (ha : 2 ^ 30 ≤ a) : ∃ s, lanczosSum (fun i => real a + i - 1) = real s ∧
    1e-5 ≤ s := by
  have hfirst : (lanczosFirst : Exact) = real 2.48574089138753565546e-5 := by
    unfold lanczosFirst
    rw [ofScientific_eq]
    norm_num
  obtain ⟨s, i, hfold, hnear⟩ := foldl_lanczos (a := a) (by linarith) lanczosRest (fun c hc => hc)
    (s := 2.48574089138753565546e-5) (i := 1) le_rfl
  refine ⟨s, ?_, ?_⟩
  · unfold lanczosSum
    rw [hfirst]
    rw [← one_eq] at hfold
    exact congrArg Prod.fst hfold
  · have hsmall : (8 : ℝ) / a ≤ 8 / 2 ^ 30 := by gcongr
    have hlength : (lanczosRest.length : ℝ) = 10 := by norm_num [lanczosRest]
    rw [hlength] at hnear
    have hlow := (abs_le.mp hnear).1
    norm_num at hlow hsmall ⊢
    linarith

theorem exists_e : ∃ y, 0 < y ∧ y ≤ 3 ∧ (Scalar.e : Exact) = real y := by
  have hdouble : Binary.ofFloat? 2.718281828459045 = some ⟨6121026514868073, -51⟩ := by decide +kernel
  have hsign : Binary.isNegative 2.718281828459045 = false := by decide +kernel
  refine ⟨6121026514868073 * 2 ^ (-51 : ℤ), by positivity, by norm_num, ?_⟩
  change Exact.ofFloat 2.718281828459045 = _
  unfold Exact.ofFloat
  rw [hdouble, hsign]
  simp

/-- The logarithm of the gamma function is not far below 0 for a large argument. -/
theorem exists_lnGamma (ha : 2 ^ 30 ≤ a) : ∃ y, lnGamma (real a) = real y ∧ -10 ^ 5 ≤ y := by
  obtain ⟨s, hs, hsge⟩ := exists_lanczosSum ha
  obtain ⟨e, hpos, he, heq⟩ := exists_e
  have hshift : (lanczosShift : Exact) = real 10.900511 := by
    unfold lanczosShift
    rw [ofScientific_eq]
    norm_num
  have hscale : (logTwoSqrtEOverPi : Exact) = real 0.62078223763524522234 := by
    unfold logTwoSqrtEOverPi
    rw [ofScientific_eq]
    norm_num
  have hratio : 1 ≤ (a - 1 / 2 + 10.900511) / e := by
    rw [one_le_div hpos]
    norm_num at ha ⊢
    linarith
  have hlog : -10 ^ 5 ≤ Real.log s := by
    have hinv : s⁻¹ ≤ 10 ^ 5 := by
      rw [inv_le_comm₀ (by linarith) (by positivity)]
      norm_num at hsge ⊢
      linarith
    linarith [Real.one_sub_inv_le_log_of_pos (x := s) (by linarith)]
  have hhalf : ¬ real a < real (1 / 2) := by
    rw [real_lt]
    norm_num at ha ⊢
    linarith
  refine ⟨Real.log s + 0.62078223763524522234 +
    (a - 1 / 2) * Real.log ((a - 1 / 2 + 10.900511) / e), ?_, ?_⟩
  · unfold lnGamma
    rw [half_eq, if_neg hhalf]
    simp only [hs, hscale, hshift, heq]
    rw [log_real (by linarith), real_sub, real_add, real_add, real_div hpos.ne',
      log_real (by linarith), real_mul, real_add]
  · have hpower := mul_nonneg (a := a - 1 / 2) (by norm_num at ha ⊢; linarith) (Real.log_nonneg hratio)
    norm_num at hlog ⊢
    linarith

/-- The upper function of a second argument that is far beyond the first one is taken as 0. -/
theorem gammaUpper_eq_zero (ha : 2 ^ 30 ≤ a) (hlt : a < x) (hfar : a * Real.log x - x ≤ -10 ^ 6) :
    gammaUpper (real a) (real x) = real 0 := by
  obtain ⟨y, hy, hge⟩ := exists_lnGamma ha
  have hposa : 0 < a := by linarith
  have hposx : 0 < x := hposa.trans hlt
  have hunderflow : (underflow : Exact) = real (-709.78271289338399) := by
    unfold underflow
    rw [ofScientific_eq, neg_real]
    norm_num
  have hnear : ¬ (decide (real x < 1) || decide (real x ≤ real a)) = true := by
    rw [one_eq]
    simp only [real_lt, real_le, Bool.or_eq_true, decide_eq_true_eq, not_or, not_lt, not_le]
    exact ⟨by linarith, hlt⟩
  have hsmall : real a * Scalar.log (real x) - real x - lnGamma (real a) < underflow := by
    rw [hy, hunderflow, log_real hposx, real_mul, real_sub, real_sub, real_lt]
    norm_num at hfar hge ⊢
    linarith
  unfold gammaUpper
  rw [if_neg (not_outside hposa hposx), if_neg hnear]
  simp only [if_pos hsmall]
  rw [if_pos (real_lt.mpr hlt), zero_eq]

end Lanczos

end InfoFlow.Special
