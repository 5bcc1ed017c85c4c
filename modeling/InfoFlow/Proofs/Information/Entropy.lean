import InfoFlow.Information.Entropy
import InfoFlow.Proofs.Scalar.Exact
import Mathlib.Algebra.BigOperators.Group.Finset.Basic
import Mathlib.Algebra.Order.BigOperators.Group.Finset

namespace InfoFlow

variable {β γ δ : Type} [BEq β] [LawfulBEq β] [BEq γ] [LawfulBEq γ] [BEq δ] [LawfulBEq δ]

theorem nodup_eraseDups (xs : List β) : xs.eraseDups.Nodup := by
  induction hn : xs.length using Nat.strong_induction_on generalizing xs with
  | h n ih =>
    cases xs with
    | nil => simp
    | cons x xs =>
      rw [List.eraseDups_cons, List.nodup_cons]
      refine ⟨by simp, ih _ ?_ _ rfl⟩
      have hle := List.length_filter_le (fun y => !y == x) xs
      rw [List.length_cons] at hn
      omega

/-- A sum over the symbols of a list, each once. -/
theorem sum_eraseDups [DecidableEq β] {M : Type} [AddCommMonoid M] (xs : List β) (f : β → M) :
    (xs.eraseDups.map f).sum = ∑ x ∈ xs.toFinset, f x := by
  have hsame : xs.eraseDups.toFinset = xs.toFinset := by
    ext x
    simp
  rw [← hsame, List.sum_toFinset f (nodup_eraseDups xs)]

/-- A sum over a list has each symbol as often as it occurs. -/
theorem sum_map_eq_sum_count [DecidableEq β] (xs : List β) (f : β → ℝ) :
    (xs.map f).sum = ∑ x ∈ xs.toFinset, xs.count x * f x := by
  obtain rfl : ‹BEq β› = instBEqOfDecidableEq := lawful_beq_subsingleton _ _
  simp only [Finset.sum_list_map_count, nsmul_eq_mul]

theorem sum_count_eq_length [DecidableEq β] (xs : List β) :
    ∑ x ∈ xs.toFinset, (xs.count x : ℝ) = xs.length := by
  simpa using (sum_map_eq_sum_count xs fun _ => 1).symm

section Values

omit [LawfulBEq β] [LawfulBEq γ]

/-- The sum of the logarithms of the counts of all symbols of a list, one after the other. -/
noncomputable def logCounts (zs : List β) : ℝ := (zs.map fun z => Real.log (zs.count z)).sum

/-- The entropy of a list of symbols. -/
noncomputable def entropyValue (zs : List β) : ℝ :=
  Real.log zs.length - logCounts zs / zs.length

/-- The mutual information of two lists of symbols. -/
noncomputable def plugInValue (xs : List β) (ys : List γ) : ℝ :=
  entropyValue xs + entropyValue ys - entropyValue (xs.zip ys)

end Values

/-- What a symbol that occurs adds to the entropy. -/
private theorem entropyTerm_eq {count n : Nat} (hcount : 0 < count) (hn : 0 < n) :
    entropyTerm (Scalar.ofNat count / Scalar.ofNat n) =
      Exact.real ((count * Real.log n - count * Real.log count) / n) := by
  have hcount : 0 < (count : ℝ) := Nat.cast_pos.mpr hcount
  have hn : 0 < (n : ℝ) := Nat.cast_pos.mpr hn
  unfold entropyTerm
  rw [Exact.ofNat_eq, Exact.ofNat_eq, Exact.real_div hn.ne', Exact.log_real (by positivity),
    Exact.neg_real, Exact.real_mul, Real.log_div hcount.ne' hn.ne']
  congr 1
  field_simp
  ring

theorem entropy_eq (zs : List β) : (entropy zs : Exact) = .real (entropyValue zs) := by
  classical
  by_cases hempty : zs = []
  · simp [hempty, entropy, entropyValue, logCounts, Exact.zero_eq]
  · have hn : (zs.length : ℝ) ≠ 0 := by simpa using hempty
    have hterm (z : β) (hz : z ∈ zs.eraseDups) :
        entropyTerm (Scalar.ofNat (zs.count z) / Scalar.ofNat zs.length) =
          Exact.real ((zs.count z * Real.log zs.length - zs.count z * Real.log (zs.count z)) /
            zs.length) :=
      entropyTerm_eq (List.count_pos_iff.mpr (List.mem_eraseDups.mp hz))
        (List.length_pos_iff.mpr hempty)
    have hsum : (entropy zs : Exact) = .real (∑ z ∈ zs.toFinset,
        (zs.count z * Real.log zs.length - zs.count z * Real.log (zs.count z)) / zs.length) := by
      rw [← sum_eraseDups, ← Exact.sum_map_real, List.map_map]
      unfold entropy occurrences
      rw [if_neg (by simpa using hempty)]
      simp only [List.map_map]
      exact congrArg Scalar.sum (List.map_congr_left hterm)
    have hlogs : logCounts zs = ∑ z ∈ zs.toFinset, zs.count z * Real.log (zs.count z) :=
      sum_map_eq_sum_count zs _
    rw [hsum, ← Finset.sum_div, Finset.sum_sub_distrib, ← Finset.sum_mul, sum_count_eq_length,
      ← hlogs]
    unfold entropyValue
    congr 1
    field_simp

theorem plugIn_eq (xs : List β) (ys : List γ) :
    (plugIn xs ys : Exact) = .real (plugInValue xs ys) := by
  unfold plugIn
  rw [entropy_eq, entropy_eq, entropy_eq, Exact.real_add, Exact.real_sub]
  rfl

/-- The pairs with some second symbol, counted by the first one. -/
theorem sum_count_pairs (pairs : List (β × γ)) {firsts : Finset β}
    (hfirsts : ∀ p ∈ pairs, p.1 ∈ firsts) (y : γ) :
    ∑ x ∈ firsts, pairs.count (x, y) = (pairs.map Prod.snd).count y := by
  classical
  induction pairs with
  | nil => simp
  | cons p pairs ih =>
    obtain ⟨x₀, y₀⟩ := p
    have hx₀ : x₀ ∈ firsts := hfirsts (x₀, y₀) List.mem_cons_self
    have hrest := ih fun q hq => hfirsts q (List.mem_cons_of_mem _ hq)
    simp only [List.count_cons, List.map_cons, Finset.sum_add_distrib, hrest]
    by_cases hy : y₀ = y
    · simp [hy, hx₀]
    · simp [hy]

section Processing

variable (pairs : List (β × γ)) (h : γ → δ)

/-- How often a pair would be seen if its first symbol came from what the second one is processed to. -/
private noncomputable def expected (p : β × γ) : ℝ :=
  (pairs.map fun q => (q.1, h q.2)).count (p.1, h p.2) * (pairs.map Prod.snd).count p.2 /
    (pairs.map fun q => h q.2).count (h p.2)

private noncomputable def ratio (p : β × γ) : ℝ := expected pairs h p / pairs.count p

omit [BEq β] [LawfulBEq β] [BEq γ] [LawfulBEq γ] in
private theorem count_processed_pos {pairs : List (β × γ)} {p : β × γ} (hp : p ∈ pairs) {ε : Type}
    [BEq ε] [LawfulBEq ε] (f : β × γ → ε) : 0 < ((pairs.map f).count (f p) : ℝ) :=
  Nat.cast_pos.mpr (List.count_pos_iff.mpr (List.mem_map_of_mem hp))

omit [LawfulBEq γ] in
/-- The second symbols that are processed to the same one share its samples. -/
private theorem sum_expected {firsts : Finset β} (hfirsts : ∀ p ∈ pairs, p.1 ∈ firsts) {y : γ}
    (hy : y ∈ pairs.map Prod.snd) :
    ∑ x ∈ firsts, expected pairs h (x, y) = (pairs.map Prod.snd).count y := by
  obtain ⟨p, hp, rfl⟩ := List.mem_map.mp hy
  have hprocessed : ∀ q ∈ pairs.map fun q => (q.1, h q.2), q.1 ∈ firsts :=
    List.forall_mem_map.mpr hfirsts
  have hcount := sum_count_pairs _ hprocessed (h p.2)
  rw [List.map_map] at hcount
  simp only [expected]
  rw [← Finset.sum_div, ← Finset.sum_mul, ← Nat.cast_sum, hcount]
  exact mul_div_cancel_left₀ _ (count_processed_pos hp fun q => h q.2).ne'

private theorem sum_ratio_le : (pairs.map (ratio pairs h)).sum ≤ pairs.length := by
  classical
  let firsts := (pairs.map Prod.fst).toFinset
  let seconds := (pairs.map Prod.snd).toFinset
  have hfirsts (p : β × γ) (hp : p ∈ pairs) : p.1 ∈ firsts :=
    List.mem_toFinset.mpr (List.mem_map_of_mem hp)
  have hseconds (p : β × γ) (hp : p ∈ pairs) : p.2 ∈ seconds :=
    List.mem_toFinset.mpr (List.mem_map_of_mem hp)
  calc (pairs.map (ratio pairs h)).sum
      = ∑ p ∈ pairs.toFinset, expected pairs h p := by
        rw [sum_map_eq_sum_count]
        refine Finset.sum_congr rfl fun p hp => ?_
        have hcount : (pairs.count p : ℝ) ≠ 0 :=
          Nat.cast_ne_zero.mpr (List.count_pos_iff.mpr (List.mem_toFinset.mp hp)).ne'
        exact mul_div_cancel₀ _ hcount
    -- Pairs that are not seen are added, so that the sum can be taken symbol by symbol.
    _ ≤ ∑ p ∈ firsts ×ˢ seconds, expected pairs h p := by
        refine Finset.sum_le_sum_of_subset_of_nonneg (fun p hp => ?_) fun p _ _ => ?_
        · have hp := List.mem_toFinset.mp hp
          exact Finset.mem_product.mpr ⟨hfirsts p hp, hseconds p hp⟩
        · unfold expected
          positivity
    _ = ∑ y ∈ seconds, ∑ x ∈ firsts, expected pairs h (x, y) := Finset.sum_product_right ..
    _ = ∑ y ∈ seconds, ((pairs.map Prod.snd).count y : ℝ) :=
        Finset.sum_congr rfl fun y hy => sum_expected pairs h hfirsts (List.mem_toFinset.mp hy)
    _ = pairs.length := by rw [sum_count_eq_length, List.length_map]

private theorem log_le_ratio (p : β × γ) (hp : p ∈ pairs) :
    Real.log ((pairs.map fun q => (q.1, h q.2)).count (p.1, h p.2)) +
        Real.log ((pairs.map Prod.snd).count p.2) + 1 ≤
      Real.log ((pairs.map fun q => h q.2).count (h p.2)) + Real.log (pairs.count p) +
        ratio pairs h p := by
  have hprocessed := count_processed_pos hp fun q => (q.1, h q.2)
  have hseconds := count_processed_pos hp Prod.snd
  have hmerged := count_processed_pos hp fun q => h q.2
  have hpairs : 0 < (pairs.count p : ℝ) := Nat.cast_pos.mpr (List.count_pos_iff.mpr hp)
  have hlog := Real.log_le_sub_one_of_pos (show 0 < ratio pairs h p by
    unfold ratio expected
    positivity)
  rw [ratio, expected, Real.log_div (by positivity) hpairs.ne',
    Real.log_div (by positivity) hmerged.ne', Real.log_mul hprocessed.ne' hseconds.ne'] at hlog
  rw [ratio, expected]
  linarith

omit [LawfulBEq β] [BEq γ] [LawfulBEq γ] in
private theorem logCounts_map (zs : List γ) (f : γ → β) :
    logCounts (zs.map f) = (zs.map fun z => Real.log ((zs.map f).count (f z))).sum := by
  unfold logCounts
  rw [List.map_map]
  rfl

/-- Gibbs' inequality, for the share that each sample has in what its second symbol is processed to. -/
theorem logCounts_map_le :
    logCounts (pairs.map fun p => (p.1, h p.2)) + logCounts (pairs.map Prod.snd) ≤
      logCounts (pairs.map fun p => h p.2) + logCounts pairs := by
  have hterms := List.sum_le_sum (log_le_ratio pairs h)
  simp only [List.sum_map_add] at hterms
  rw [← logCounts_map, ← logCounts_map, ← logCounts_map] at hterms
  have hones : (pairs.map fun _ => (1 : ℝ)).sum = pairs.length := by simp
  have hratios : (pairs.map fun p => ratio pairs h p).sum ≤ pairs.length := sum_ratio_le pairs h
  have hlogs : logCounts pairs = (pairs.map fun p => Real.log (pairs.count p)).sum := rfl
  linarith

end Processing

/-- Processed outputs have no more mutual information with the secrets. -/
theorem plugInValue_map_le {xs : List β} {ys : List γ} (hlength : xs.length = ys.length)
    (h : γ → δ) : plugInValue xs (ys.map h) ≤ plugInValue xs ys := by
  have hseconds : (xs.zip ys).map Prod.snd = ys := List.map_snd_zip hlength.ge
  have hprocessed : (xs.zip ys).map (fun p => h p.2) = ys.map h := by
    conv_rhs => rw [← hseconds, List.map_map]
    rfl
  have hpairs : (xs.zip ys).map (fun p => (p.1, h p.2)) = xs.zip (ys.map h) := by
    rw [List.zip_map_right]
    rfl
  have hlogs := logCounts_map_le (xs.zip ys) h
  rw [hseconds, hprocessed, hpairs] at hlogs
  have hshares := div_le_div_of_nonneg_right hlogs (Nat.cast_nonneg (α := ℝ) ys.length)
  rw [add_div, add_div] at hshares
  simp only [plugInValue, entropyValue, List.length_zip, List.length_map, hlength, min_self]
  linarith

end InfoFlow
