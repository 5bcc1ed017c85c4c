import InfoFlow.Leakage.Vulnerability
import InfoFlow.Proofs.Information.Entropy

namespace InfoFlow

variable {β γ δ : Type} [BEq β] [LawfulBEq β] [BEq γ] [LawfulBEq γ] [BEq δ] [LawfulBEq δ]

omit [LawfulBEq β] in
theorem largestCount_eq (xs : List β) :
    largestCount xs = (xs.eraseDups.map fun x => xs.count x).max?.getD 0 := by
  unfold largestCount
  exact (List.foldl_max (a := 0)).trans (Nat.zero_max _)

theorem count_le_largestCount (xs : List β) (x : β) : xs.count x ≤ largestCount xs := by
  by_cases hx : x ∈ xs
  · rw [largestCount_eq]
    exact List.le_max?_getD_of_mem (List.mem_map_of_mem (List.mem_eraseDups.mpr hx))
  · rw [List.count_eq_zero.mpr hx]
    exact Nat.zero_le _

theorem exists_count_eq_largestCount {xs : List β} (hne : xs ≠ []) :
    ∃ x ∈ xs, xs.count x = largestCount xs := by
  obtain ⟨y, hy⟩ := List.exists_mem_of_ne_nil xs hne
  have hcount : xs.count y ∈ xs.eraseDups.map fun x => xs.count x :=
    List.mem_map_of_mem (List.mem_eraseDups.mpr hy)
  obtain ⟨largest, hlargest⟩ := Option.isSome_iff_exists.mp (List.isSome_max?_of_mem hcount)
  obtain ⟨x, hx, hcount⟩ := List.mem_map.mp (List.max?_mem hlargest)
  refine ⟨x, List.mem_eraseDups.mp hx, ?_⟩
  rw [largestCount_eq, hlargest, hcount]
  rfl

section Guesses

omit [LawfulBEq β] [LawfulBEq γ]

/-- The secrets of the samples with some output. -/
def seenWith (pairs : List (β × γ)) (y : γ) : List β :=
  (pairs.filter fun p => p.2 == y).map Prod.fst

/-- The number of samples whose secret a guess from the output gets right. -/
def rightGuesses (pairs : List (β × γ)) (guess : γ → β) : Nat :=
  pairs.countP fun p => guess p.2 == p.1

end Guesses

omit [LawfulBEq β] in
theorem correctGuesses_eq [DecidableEq γ] (xs : List β) (ys : List γ) :
    correctGuesses xs ys =
      ∑ y ∈ ((xs.zip ys).map Prod.snd).toFinset, largestCount (seenWith (xs.zip ys) y) := by
  rw [← sum_eraseDups]
  unfold correctGuesses
  rw [List.sum, List.foldr_map]
  rfl

theorem rightGuesses_eq (pairs : List (β × γ)) (guess : γ → β) {outputs : Finset γ}
    (houtputs : ∀ p ∈ pairs, p.2 ∈ outputs) :
    rightGuesses pairs guess = ∑ y ∈ outputs, (seenWith pairs y).count (guess y) := by
  classical
  induction pairs with
  | nil => simp [rightGuesses, seenWith]
  | cons p pairs ih =>
    have hp : p.2 ∈ outputs := houtputs p List.mem_cons_self
    have hrest := ih fun q hq => houtputs q (List.mem_cons_of_mem _ hq)
    have hone (y : γ) : (seenWith (p :: pairs) y).count (guess y) =
        (seenWith pairs y).count (guess y) + if p.2 = y ∧ guess p.2 = p.1 then 1 else 0 := by
      unfold seenWith
      by_cases hy : p.2 = y
      · subst hy
        simp [List.count_cons, Eq.comm (a := p.1)]
      · simp [hy]
    unfold rightGuesses at hrest ⊢
    rw [List.countP_cons, hrest, Finset.sum_congr rfl fun y _ => hone y, Finset.sum_add_distrib]
    congr 1
    by_cases hguess : guess p.2 = p.1
    · simp [hguess, hp]
    · simp [hguess]

/-- No guess is right more often than the best one for each output. -/
theorem rightGuesses_le (xs : List β) (ys : List γ) (guess : γ → β) :
    rightGuesses (xs.zip ys) guess ≤ correctGuesses xs ys := by
  classical
  rw [correctGuesses_eq, rightGuesses_eq _ _ fun p hp => List.mem_toFinset.mpr
    (List.mem_map_of_mem hp)]
  exact Finset.sum_le_sum fun y _ => count_le_largestCount _ _

/-- The best guess for each output is a guess. -/
theorem exists_rightGuesses_eq {xs : List β} (hne : xs ≠ []) (ys : List γ) :
    ∃ guess, rightGuesses (xs.zip ys) guess = correctGuesses xs ys := by
  classical
  obtain ⟨x₀, _⟩ := List.exists_mem_of_ne_nil xs hne
  have hbest (y : γ) : ∃ x, y ∈ (xs.zip ys).map Prod.snd →
      (seenWith (xs.zip ys) y).count x = largestCount (seenWith (xs.zip ys) y) := by
    by_cases hy : y ∈ (xs.zip ys).map Prod.snd
    · obtain ⟨p, hp, rfl⟩ := List.mem_map.mp hy
      have hseen : p.1 ∈ seenWith (xs.zip ys) p.2 :=
        List.mem_map_of_mem (List.mem_filter.mpr ⟨hp, beq_self_eq_true p.2⟩)
      obtain ⟨x, _, hx⟩ := exists_count_eq_largestCount (List.ne_nil_of_mem hseen)
      exact ⟨x, fun _ => hx⟩
    · exact ⟨x₀, fun hmem => absurd hmem hy⟩
  choose guess hguess using hbest
  refine ⟨guess, ?_⟩
  rw [correctGuesses_eq, rightGuesses_eq _ _ fun p hp => List.mem_toFinset.mpr
    (List.mem_map_of_mem hp)]
  exact Finset.sum_congr rfl fun y hy => hguess y (List.mem_toFinset.mp hy)

/-- Processed outputs let one guess no more secrets. -/
theorem correctGuesses_map_le (xs : List β) (ys : List γ) (h : γ → δ) :
    correctGuesses xs (ys.map h) ≤ correctGuesses xs ys := by
  by_cases hempty : xs = []
  · simp [hempty, correctGuesses]
  · obtain ⟨guess, hguess⟩ := exists_rightGuesses_eq hempty (ys.map h)
    have hsame : rightGuesses (xs.zip (ys.map h)) guess = rightGuesses (xs.zip ys) (guess ∘ h) := by
      unfold rightGuesses
      rw [List.zip_map_right, List.countP_map]
      rfl
    rw [← hguess, hsame]
    exact rightGuesses_le xs ys _

/-- The most frequent secret is right as often as it occurs, whatever the output. -/
theorem largestCount_le_correctGuesses {xs : List β} {ys : List γ} (hlength : xs.length = ys.length)
    (hne : xs ≠ []) : largestCount xs ≤ correctGuesses xs ys := by
  obtain ⟨x, _, hx⟩ := exists_count_eq_largestCount hne
  have hconst : rightGuesses (xs.zip ys) (fun _ => x) = xs.count x := by
    conv_rhs => rw [← List.map_fst_zip hlength.le, List.count, List.countP_map]
    refine List.countP_congr fun p _ => ?_
    simp [Eq.comm (a := x)]
  rw [← hx, ← hconst]
  exact rightGuesses_le xs ys _

/-- The leakage is the distance of the two probabilities in bits. -/
theorem Guessing.minEntropyLeakage_eq {prior posterior : ℝ} (hprior : 0 < prior)
    (hposterior : 0 < posterior) :
    Guessing.minEntropyLeakage (1 - Exact.real posterior) (1 - Exact.real prior) =
      .real (Real.logb 2 posterior - Real.logb 2 prior) := by
  unfold Guessing.minEntropyLeakage
  simp only [Exact.one_eq, Exact.real_sub, sub_sub_cancel]
  rw [Exact.log2_real hposterior, Exact.log2_real hprior, Exact.neg_real, Exact.real_add]
  congr 1
  ring

namespace Vulnerability

/-- With the same prior, a larger posterior leaks more. -/
theorem minEntropyLeakage_mono (prior : ℝ) {posterior larger : ℝ} (hpos : 0 < posterior)
    (hle : posterior ≤ larger) (units : Units) :
    (⟨.real prior, .real posterior⟩ : Vulnerability Exact).minEntropyLeakage units ≤
      (⟨.real prior, .real larger⟩ : Vulnerability Exact).minEntropyLeakage units := by
  by_cases hprior : prior ≤ 0
  · have hnone : Exact.real prior ≤ 0 := by
      rwa [Exact.zero_eq, Exact.real_le]
    simp only [minEntropyLeakage, if_pos hnone]
    exact Exact.zero_le_zero
  · have hsome : ¬ Exact.real prior ≤ 0 := by
      rwa [Exact.zero_eq, Exact.real_le]
    have hlogs : Real.logb 2 posterior - Real.logb 2 prior ≤
        Real.logb 2 larger - Real.logb 2 prior :=
      sub_le_sub_right (Real.logb_le_logb_of_le one_lt_two hpos hle) _
    simp only [minEntropyLeakage, if_neg hsome, bayesRisk, randomGuessing]
    rw [Guessing.minEntropyLeakage_eq (not_le.mp hprior) hpos,
      Guessing.minEntropyLeakage_eq (not_le.mp hprior) (hpos.trans_le hle), Exact.zero_eq]
    cases units with
    | bits =>
      simp only [Exact.max_real, Exact.real_le]
      exact max_le_max_right 0 hlogs
    | nats =>
      obtain ⟨ln2, hln2, hreal⟩ := Exact.exists_ln2
      simp only [hreal, Exact.real_mul, Exact.max_real, Exact.real_le]
      exact max_le_max_right 0 (mul_le_mul_of_nonneg_right hlogs hln2.le)

omit [LawfulBEq β] [LawfulBEq γ] in
theorem ofSamples_eq {xs : List β} (ys : List γ) (hne : xs ≠ []) :
    (ofSamples xs ys : Vulnerability Exact) =
      ⟨.real (largestCount xs / xs.length), .real (correctGuesses xs ys / xs.length)⟩ := by
  have hlength : (xs.length : ℝ) ≠ 0 := by simpa using hne
  have hnonempty : ¬ xs.isEmpty = true := by simpa using hne
  unfold ofSamples maxPrior
  simp only [if_neg hnonempty, Exact.ofNat_eq, Exact.real_div hlength]

/-- Processed outputs have no more min-entropy leakage about the secrets. -/
theorem minEntropyLeakage_map_le {xs : List β} {ys : List γ} (hlength : xs.length = ys.length)
    (h : γ → δ) (units : Units) :
    (ofSamples xs (ys.map h) : Vulnerability Exact).minEntropyLeakage units ≤
      (ofSamples xs ys : Vulnerability Exact).minEntropyLeakage units := by
  by_cases hempty : xs = []
  · simp only [hempty, ofSamples, List.isEmpty_nil, if_true, minEntropyLeakage,
      if_pos Exact.zero_le_zero]
    exact Exact.zero_le_zero
  · rw [ofSamples_eq _ hempty, ofSamples_eq _ hempty]
    have hn : 0 < (xs.length : ℝ) := Nat.cast_pos.mpr (List.length_pos_iff.mpr hempty)
    have hpos : 0 < correctGuesses xs (ys.map h) := by
      have hprocessed : xs.length = (ys.map h).length := by simpa using hlength
      have hcount := largestCount_le_correctGuesses hprocessed hempty
      obtain ⟨x, hx, hlargest⟩ := exists_count_eq_largestCount hempty
      have hseen := List.count_pos_iff.mpr hx
      omega
    have hguesses : (correctGuesses xs (ys.map h) : ℝ) ≤ correctGuesses xs ys :=
      Nat.cast_le.mpr (correctGuesses_map_le xs ys h)
    exact minEntropyLeakage_mono _ (by positivity) (by gcongr) units

end Vulnerability

end InfoFlow
