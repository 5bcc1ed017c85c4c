import InfoFlow.Proofs.Leakage.Vulnerability

namespace InfoFlow

variable {β γ : Type} [DecidableEq β] [DecidableEq γ]

section Counts

variable {xs : List β} {ys : List γ}

theorem largestCount_eq_sup (xs : List β) : largestCount xs = xs.toFinset.sup fun x => xs.count x := by
  apply le_antisymm
  · by_cases hempty : xs = []
    · simp [hempty, largestCount]
    · obtain ⟨x, hx, hcount⟩ := exists_count_eq_largestCount hempty
      rw [← hcount]
      exact Finset.le_sup (f := fun x => xs.count x) (List.mem_toFinset.mpr hx)
  · exact Finset.sup_le fun x _ => count_le_largestCount xs x

theorem count_seenWith (pairs : List (β × γ)) (x : β) (y : γ) :
    (seenWith pairs y).count x = pairs.count (x, y) := by
  unfold seenWith List.count
  rw [List.countP_map, List.countP_filter]
  refine List.countP_congr fun p _ => ?_
  simp [Prod.ext_iff]

theorem largestCount_seenWith (xs : List β) (ys : List γ) (y : γ) :
    largestCount (seenWith (xs.zip ys) y) =
      xs.toFinset.sup fun x => (xs.zip ys).count (x, y) := by
  apply le_antisymm
  · rw [largestCount_eq_sup]
    refine Finset.sup_le fun x hx => ?_
    obtain ⟨p, hp, rfl⟩ := List.mem_map.mp (List.mem_toFinset.mp hx)
    have hmem := (List.of_mem_zip (List.mem_filter.mp hp).1).1
    rw [count_seenWith]
    exact Finset.le_sup (f := fun x => (xs.zip ys).count (x, y)) (List.mem_toFinset.mpr hmem)
  · refine Finset.sup_le fun x _ => ?_
    rw [← count_seenWith]
    exact count_le_largestCount _ x

variable (hlength : xs.length = ys.length)

include hlength

/-- For each output, the most frequent secret that is seen with it is guessed. -/
theorem correctGuesses_eq_sum : correctGuesses xs ys =
    ∑ y ∈ ys.toFinset, xs.toFinset.sup fun x => (xs.zip ys).count (x, y) := by
  rw [correctGuesses_eq, List.map_snd_zip hlength.ge]
  exact Finset.sum_congr rfl fun y _ => largestCount_seenWith xs ys y

theorem correctGuesses_le_length : correctGuesses xs ys ≤ xs.length := by
  by_cases hempty : xs = []
  · simp [hempty, correctGuesses]
  · obtain ⟨guess, hguess⟩ := exists_rightGuesses_eq hempty ys
    rw [← hguess]
    calc rightGuesses (xs.zip ys) guess
        ≤ (xs.zip ys).length := List.countP_le_length
      _ = xs.length := by rw [List.length_zip, ← hlength, min_self]

/-- With no output is a secret seen more often than altogether. -/
theorem correctGuesses_le_mul_outputs :
    correctGuesses xs ys ≤ largestCount xs * ys.toFinset.card := by
  have hsup (y : γ) : (xs.toFinset.sup fun x => (xs.zip ys).count (x, y)) ≤ largestCount xs := by
    refine Finset.sup_le fun x _ => ?_
    calc (xs.zip ys).count (x, y)
        ≤ ((xs.zip ys).map Prod.fst).count x := List.count_le_count_map (f := Prod.fst)
      _ = xs.count x := by rw [List.map_fst_zip hlength.le]
      _ ≤ largestCount xs := count_le_largestCount xs x
  calc correctGuesses xs ys
      = ∑ y ∈ ys.toFinset, xs.toFinset.sup fun x => (xs.zip ys).count (x, y) :=
        correctGuesses_eq_sum hlength
    _ ≤ ∑ _y ∈ ys.toFinset, largestCount xs := Finset.sum_le_sum fun y _ => hsup y
    _ = largestCount xs * ys.toFinset.card := by
        rw [Finset.sum_const, smul_eq_mul, mul_comm]

omit hlength in
theorem length_le_mul_secrets (xs : List β) : xs.length ≤ largestCount xs * xs.toFinset.card := by
  calc xs.length
      = ∑ x ∈ xs.toFinset, xs.count x := (List.sum_toFinset_count_eq_length xs).symm
    _ ≤ ∑ _x ∈ xs.toFinset, largestCount xs :=
        Finset.sum_le_sum fun x _ => count_le_largestCount xs x
    _ = largestCount xs * xs.toFinset.card := by
        rw [Finset.sum_const, smul_eq_mul, mul_comm]

/-- All secrets are guessed right where each output is seen with one secret only. -/
theorem correctGuesses_eq_length_iff (hne : xs ≠ []) : correctGuesses xs ys = xs.length ↔
    ∀ p ∈ xs.zip ys, ∀ q ∈ xs.zip ys, p.2 = q.2 → p.1 = q.1 := by
  have hpairs : (xs.zip ys).length = xs.length := by rw [List.length_zip, ← hlength, min_self]
  constructor
  · intro hall p hp q hq hsame
    obtain ⟨guess, hguess⟩ := exists_rightGuesses_eq hne ys
    have hright := List.countP_eq_length.mp (hguess.trans (hall.trans hpairs.symm))
    have hfirst := eq_of_beq (hright p hp)
    have hsecond := eq_of_beq (hright q hq)
    rw [← hfirst, ← hsecond, hsame]
  · intro hone
    obtain ⟨x₀, _⟩ := List.exists_mem_of_ne_nil xs hne
    have hbest (y : γ) : ∃ x, ∀ p ∈ xs.zip ys, p.2 = y → x = p.1 := by
      by_cases hy : ∃ p ∈ xs.zip ys, p.2 = y
      · obtain ⟨p, hp, rfl⟩ := hy
        exact ⟨p.1, fun q hq hsame => hone p hp q hq hsame.symm⟩
      · exact ⟨x₀, fun p hp hsame => absurd ⟨p, hp, hsame⟩ hy⟩
    choose guess hguess using hbest
    have hright : rightGuesses (xs.zip ys) guess = (xs.zip ys).length :=
      List.countP_eq_length.mpr fun p hp => beq_iff_eq.mpr (hguess p.2 p hp rfl)
    refine le_antisymm (correctGuesses_le_length hlength) ?_
    rw [← hpairs, ← hright]
    exact rightGuesses_le xs ys guess

end Counts

/-- The chances of guessing some secrets without and with their outputs. -/
structure Chances (xs : List β) (ys : List γ) (prior posterior : ℝ) : Prop where
  prior_eq : prior = (xs.toFinset.sup fun x => xs.count x : ℕ) / xs.length
  posterior_eq : posterior =
    (∑ y ∈ ys.toFinset, xs.toFinset.sup fun x => (xs.zip ys).count (x, y) : ℕ) / xs.length
  prior_pos : 0 < prior
  prior_le : prior ≤ posterior
  le_one : posterior ≤ 1
  le_mul_outputs : posterior ≤ prior * ys.toFinset.card
  le_mul_secrets : posterior ≤ prior * xs.toFinset.card
  eq_one_iff : posterior = 1 ↔ ∀ p ∈ xs.zip ys, ∀ q ∈ xs.zip ys, p.2 = q.2 → p.1 = q.1

section Chances

variable {xs : List β} {ys : List γ} {prior posterior : ℝ}

theorem exists_chances (hlength : xs.length = ys.length) (hne : xs ≠ []) : ∃ prior posterior : ℝ,
    (Vulnerability.ofSamples xs ys : Vulnerability Exact) = ⟨.real prior, .real posterior⟩ ∧
      Chances xs ys prior posterior := by
  have hn : 0 < (xs.length : ℝ) := Nat.cast_pos.mpr (List.length_pos_iff.mpr hne)
  have hpos : 0 < largestCount xs := by
    obtain ⟨x, hx, hcount⟩ := exists_count_eq_largestCount hne
    exact hcount ▸ List.count_pos_iff.mpr hx
  refine ⟨_, _, Vulnerability.ofSamples_eq ys hne, ?_⟩
  constructor
  case prior_eq => rw [largestCount_eq_sup]
  case posterior_eq => rw [correctGuesses_eq_sum hlength]
  case prior_pos => positivity
  case prior_le =>
    have hle := largestCount_le_correctGuesses hlength hne
    gcongr
  case le_one =>
    rw [div_le_one hn]
    exact Nat.cast_le.mpr (correctGuesses_le_length hlength)
  case le_mul_outputs =>
    rw [div_mul_eq_mul_div, ← Nat.cast_mul]
    have hle := correctGuesses_le_mul_outputs hlength
    gcongr
  case le_mul_secrets =>
    rw [div_mul_eq_mul_div, ← Nat.cast_mul]
    have hle := (correctGuesses_le_length hlength).trans (length_le_mul_secrets xs)
    gcongr
  case eq_one_iff =>
    rw [div_eq_one_iff_eq hn.ne', Nat.cast_inj]
    exact correctGuesses_eq_length_iff hlength hne

/-- The output raises the chance of a right guess by a factor that is no larger than the number of outputs,
or of secrets. -/
theorem Chances.logb_bounds (h : Chances xs ys prior posterior) :
    0 ≤ Real.logb 2 (posterior / prior) ∧
      Real.logb 2 (posterior / prior) ≤
        Real.logb 2 (min xs.toFinset.card ys.toFinset.card : ℕ) := by
  have hfactor : 1 ≤ posterior / prior := (one_le_div h.prior_pos).mpr h.prior_le
  refine ⟨Real.logb_nonneg one_lt_two hfactor, ?_⟩
  refine Real.logb_le_logb_of_le one_lt_two (zero_lt_one.trans_le hfactor) ?_
  rw [Nat.cast_min, le_min_iff, div_le_iff₀' h.prior_pos, div_le_iff₀' h.prior_pos]
  exact ⟨h.le_mul_secrets, h.le_mul_outputs⟩

/-- The logarithm is not below 0, so it is not cut off there. -/
theorem Chances.minEntropyLeakage_eq (h : Chances xs ys prior posterior) (units : Units) :
    (⟨.real prior, .real posterior⟩ : Vulnerability Exact).minEntropyLeakage units =
      match units with
      | .bits => .real (Real.logb 2 (posterior / prior))
      | .nats => .real (Real.logb 2 (posterior / prior)) * Scalar.ln2 := by
  have hsome : ¬ Exact.real prior ≤ 0 := by
    rw [Exact.zero_eq, Exact.real_le]
    exact not_le.mpr h.prior_pos
  have hposterior := h.prior_pos.trans_le h.prior_le
  have hnonneg := h.logb_bounds.1
  have hbits := Guessing.minEntropyLeakage_eq h.prior_pos hposterior
  rw [← Real.logb_div hposterior.ne' h.prior_pos.ne'] at hbits
  simp only [Vulnerability.minEntropyLeakage, if_neg hsome, Vulnerability.bayesRisk,
    Vulnerability.randomGuessing, hbits]
  rw [Exact.zero_eq]
  cases units with
  | bits => exact Exact.max_real.trans (by rw [max_eq_left hnonneg])
  | nats =>
    obtain ⟨ln2, hln2, hreal⟩ := Exact.exists_ln2
    simp only [hreal, Exact.real_mul, Exact.max_real]
    rw [max_eq_left (by positivity)]

end Chances

/-- The chances of guessing secrets are the shares of samples whose secret the best guesses get right. The
min-entropy leakage is the logarithm of their ratio, which lies between 0 and the logarithm of the number of
outputs, or of secrets; nothing is cut off at 0. In nats it is multiplied by the double that is nearest to
the logarithm of two. -/
theorem Vulnerability.ofSamples_chances {xs : List β} {ys : List γ} (hlength : xs.length = ys.length)
    (hne : xs ≠ []) : ∃ prior posterior ln2 : ℝ,
      (ofSamples xs ys : Vulnerability Exact) = ⟨.real prior, .real posterior⟩ ∧
      Chances xs ys prior posterior ∧
      0 ≤ Real.logb 2 (posterior / prior) ∧
      Real.logb 2 (posterior / prior) ≤
        Real.logb 2 (min xs.toFinset.card ys.toFinset.card : ℕ) ∧
      (ofSamples xs ys : Vulnerability Exact).minEntropyLeakage .bits =
        .real (Real.logb 2 (posterior / prior)) ∧
      (ofSamples xs ys : Vulnerability Exact).minEntropyLeakage .nats =
        .real (Real.logb 2 (posterior / prior) * ln2) ∧
      (Scalar.ln2 : Exact) = .real ln2 ∧ |ln2 - Real.log 2| ≤ (1 / 2) ^ 54 := by
  obtain ⟨prior, posterior, hsamples, hchances⟩ := exists_chances hlength hne
  refine ⟨prior, posterior, _, hsamples, hchances, hchances.logb_bounds.1, hchances.logb_bounds.2,
    ?_, ?_, Exact.ln2_eq, Exact.ln2_near⟩
  · rw [hsamples]
    exact hchances.minEntropyLeakage_eq .bits
  · rw [hsamples, ← Exact.real_mul, ← Exact.ln2_eq]
    exact hchances.minEntropyLeakage_eq .nats

/-- Of four samples, half have the most frequent secret; who sees the output gets three of them right. -/
theorem Vulnerability.ofSamples_fourSamples :
    [0, 1, 2, 0].length = [0, 0, 1, 0].length ∧ [0, 1, 2, 0] ≠ [] ∧
      (ofSamples [0, 1, 2, 0] [0, 0, 1, 0] : Vulnerability Exact) =
        ⟨.real (1 / 2), .real (3 / 4)⟩ ∧
      (ofSamples [0, 1, 2, 0] [0, 0, 1, 0] : Vulnerability Exact).minEntropyLeakage .bits =
        .real (Real.logb 2 (3 / 2)) := by
  have hlength : [0, 1, 2, 0].length = [0, 0, 1, 0].length := rfl
  have hne : [0, 1, 2, 0] ≠ [] := by simp
  obtain ⟨prior, posterior, _, hsamples, hchances, _, _, hbits, _⟩ := ofSamples_chances hlength hne
  have hprior : prior = 1 / 2 := by
    have hlargest : ([0, 1, 2, 0].toFinset.sup fun x => [0, 1, 2, 0].count x) = 2 := by decide
    rw [hchances.prior_eq, hlargest]
    norm_num
  have hposterior : posterior = 3 / 4 := by
    have hright : (∑ y ∈ [0, 0, 1, 0].toFinset, [0, 1, 2, 0].toFinset.sup fun x =>
        ([0, 1, 2, 0].zip [0, 0, 1, 0]).count (x, y)) = 3 := by decide
    rw [hchances.posterior_eq, hright]
    norm_num
  refine ⟨hlength, hne, hsamples.trans (by rw [hprior, hposterior]), hbits.trans ?_⟩
  rw [hprior, hposterior]
  norm_num

end InfoFlow
