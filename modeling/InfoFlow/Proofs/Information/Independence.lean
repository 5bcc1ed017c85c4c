import InfoFlow.Proofs.Information.Processing
import Mathlib.InformationTheory.KullbackLeibler.KLFun

namespace InfoFlow

open InformationTheory (klFun klFun_nonneg klFun_eq_zero_iff)

variable {β γ : Type}

/-- Aligned symbols that occur together as often as they would by chance: the frequency of any pair is the
product of the frequencies of its symbols. -/
def AreIndependent [BEq β] [BEq γ] (xs : List β) (ys : List γ) : Prop :=
  ∀ x y, ((xs.zip ys).count (x, y) / xs.length : ℝ) =
    xs.count x / xs.length * (ys.count y / ys.length)

/-- Symbols that are all the same. -/
def IsConstantList (xs : List β) : Prop := ∀ x ∈ xs, ∀ y ∈ xs, x = y

variable [BEq β] [LawfulBEq β] [BEq γ] [LawfulBEq γ]

section Entropies

/-- Symbols that are processed have no more entropy. -/
theorem entropyValue_map_le (zs : List γ) (f : γ → β) :
    entropyValue (zs.map f) ≤ entropyValue zs := by
  have hterm (z : γ) (hz : z ∈ zs) :
      Real.log (zs.count z) ≤ Real.log ((zs.map f).count (f z)) := by
    have hcount : zs.count z ≤ (zs.map f).count (f z) := List.count_le_count_map
    exact Real.log_le_log (Nat.cast_pos.mpr (List.count_pos_iff.mpr hz)) (Nat.cast_le.mpr hcount)
  have hlogs : logCounts zs ≤ logCounts (zs.map f) := by
    unfold logCounts
    rw [List.map_map]
    exact List.sum_le_sum hterm
  unfold entropyValue
  rw [List.length_map]
  gcongr

theorem entropyValue_zip_self (xs : List β) : entropyValue (xs.zip xs) = entropyValue xs := by
  apply le_antisymm
  · have hpaired : xs.zip xs = xs.map fun x => (x, x) := by
      rw [List.zip_eq_zipWith, List.zipWith_self]
    rw [hpaired]
    exact entropyValue_map_le xs _
  · have hfirsts : (xs.zip xs).map Prod.fst = xs := List.map_fst_zip le_rfl
    conv_lhs => rw [← hfirsts]
    exact entropyValue_map_le (xs.zip xs) Prod.fst

theorem IsConstantList.entropyValue_eq {xs : List β} (h : IsConstantList xs) : entropyValue xs = 0 := by
  have hcount (x : β) (hx : x ∈ xs) : xs.count x = xs.length :=
    List.count_eq_length.mpr fun y hy => h x hx y hy
  have hlogs : logCounts xs = xs.length * Real.log xs.length := by
    have hterms : (xs.map fun x => Real.log (xs.count x)) = xs.map fun _ => Real.log xs.length :=
      List.map_congr_left fun x hx => by rw [hcount x hx]
    rw [logCounts, hterms]
    simp
  unfold entropyValue
  rw [hlogs]
  by_cases hempty : xs = []
  · simp [hempty]
  · have hn : (xs.length : ℝ) ≠ 0 := by simpa using hempty
    rw [mul_div_cancel_left₀ _ hn, sub_self]

end Entropies

section Divergence

variable {xs : List β} {ys : List γ}

/-- How often a pair would be seen if its symbols had nothing to do with each other. -/
noncomputable def chanceCount (xs : List β) (ys : List γ) (p : β × γ) : ℝ :=
  xs.count p.1 * ys.count p.2 / xs.length

/-- A sum over aligned samples goes over all pairs of symbols, as often as they occur. -/
theorem sum_map_zip [DecidableEq β] [DecidableEq γ] (xs : List β) (ys : List γ) (f : β × γ → ℝ) :
    ((xs.zip ys).map f).sum =
      ∑ p ∈ xs.toFinset ×ˢ ys.toFinset, (xs.zip ys).count p * f p := by
  rw [sum_map_eq_sum_count]
  refine Finset.sum_subset (fun p hp => ?_) fun p _ hp => ?_
  · have hmem := List.of_mem_zip (List.mem_toFinset.mp hp)
    exact Finset.mem_product.mpr ⟨List.mem_toFinset.mpr hmem.1, List.mem_toFinset.mpr hmem.2⟩
  · rw [List.count_eq_zero.mpr (mt List.mem_toFinset.mpr hp), Nat.cast_zero, zero_mul]

theorem chanceCount_pos {p : β × γ} (hx : p.1 ∈ xs) (hy : p.2 ∈ ys) : 0 < chanceCount xs ys p := by
  have hxs := List.count_pos_iff.mpr hx
  have hys := List.count_pos_iff.mpr hy
  have hn := List.length_pos_of_mem hx
  unfold chanceCount
  positivity

theorem sum_chanceCount [DecidableEq β] [DecidableEq γ] (hlength : xs.length = ys.length) :
    ∑ p ∈ xs.toFinset ×ˢ ys.toFinset, chanceCount xs ys p = xs.length := by
  calc ∑ p ∈ xs.toFinset ×ˢ ys.toFinset, chanceCount xs ys p
      = (∑ p ∈ xs.toFinset ×ˢ ys.toFinset, (xs.count p.1 * ys.count p.2 : ℝ)) / xs.length :=
        (Finset.sum_div ..).symm
    _ = (∑ x ∈ xs.toFinset, (xs.count x : ℝ)) * (∑ y ∈ ys.toFinset, (ys.count y : ℝ)) /
          xs.length := by
        rw [Finset.sum_product, Finset.sum_mul_sum]
    _ = xs.length := by
        rw [sum_count_eq_length, sum_count_eq_length, ← hlength]
        exact mul_self_div_self _

/-- What a pair adds, in terms of its count and of the one expected by chance. -/
theorem chanceCount_mul_klFun {p : β × γ} (hx : p.1 ∈ xs) (hy : p.2 ∈ ys) :
    chanceCount xs ys p * klFun ((xs.zip ys).count p / chanceCount xs ys p) =
      (xs.zip ys).count p * (Real.log ((xs.zip ys).count p) + Real.log xs.length) -
        (xs.zip ys).count p * (Real.log (xs.count p.1) + Real.log (ys.count p.2)) +
        (chanceCount xs ys p - (xs.zip ys).count p) := by
  have hpos := chanceCount_pos hx hy
  rw [InformationTheory.klFun_apply]
  by_cases hcount : (xs.zip ys).count p = 0
  · simp [hcount]
  · have hcount : ((xs.zip ys).count p : ℝ) ≠ 0 := Nat.cast_ne_zero.mpr hcount
    have hxs : (xs.count p.1 : ℝ) ≠ 0 := Nat.cast_ne_zero.mpr (List.count_pos_iff.mpr hx).ne'
    have hys : (ys.count p.2 : ℝ) ≠ 0 := Nat.cast_ne_zero.mpr (List.count_pos_iff.mpr hy).ne'
    have hn : (xs.length : ℝ) ≠ 0 := Nat.cast_ne_zero.mpr (List.length_pos_of_mem hx).ne'
    have hlog : Real.log (chanceCount xs ys p) =
        Real.log (xs.count p.1) + Real.log (ys.count p.2) - Real.log xs.length := by
      rw [chanceCount, Real.log_div (mul_ne_zero hxs hys) hn, Real.log_mul hxs hys]
    rw [Real.log_div hcount hpos.ne', hlog]
    field_simp
    ring

/-- The mutual information of all samples together is what all pairs of symbols add. -/
theorem length_mul_plugInValue [DecidableEq β] [DecidableEq γ] (hlength : xs.length = ys.length) :
    xs.length * plugInValue xs ys = ∑ p ∈ xs.toFinset ×ˢ ys.toFinset,
      chanceCount xs ys p * klFun ((xs.zip ys).count p / chanceCount xs ys p) := by
  have hfirsts (f : β → ℝ) : (xs.zip ys).map (fun p => f p.1) = xs.map f := by
    rw [← Function.comp_def, ← List.map_map, List.map_fst_zip hlength.le]
  have hseconds (f : γ → ℝ) : (xs.zip ys).map (fun p => f p.2) = ys.map f := by
    rw [← Function.comp_def, ← List.map_map, List.map_snd_zip hlength.ge]
  have hpairs : (xs.zip ys).length = xs.length := by
    rw [List.length_zip, ← hlength, min_self]
  have hseen : ∑ p ∈ xs.toFinset ×ˢ ys.toFinset,
        (xs.zip ys).count p * (Real.log ((xs.zip ys).count p) + Real.log xs.length) =
      logCounts (xs.zip ys) + xs.length * Real.log xs.length := by
    rw [← sum_map_zip xs ys fun p => Real.log ((xs.zip ys).count p) + Real.log xs.length,
      List.sum_map_add, List.map_const', List.sum_replicate, hpairs, nsmul_eq_mul]
    rfl
  have hchance : ∑ p ∈ xs.toFinset ×ˢ ys.toFinset,
        (xs.zip ys).count p * (Real.log (xs.count p.1) + Real.log (ys.count p.2)) =
      logCounts xs + logCounts ys := by
    rw [← sum_map_zip xs ys fun p => Real.log (xs.count p.1) + Real.log (ys.count p.2),
      List.sum_map_add, hfirsts fun x => Real.log (xs.count x), hseconds fun y => Real.log (ys.count y)]
    rfl
  have hcounts : ∑ p ∈ xs.toFinset ×ˢ ys.toFinset, ((xs.zip ys).count p : ℝ) = xs.length := by
    simpa [hpairs] using (sum_map_zip xs ys fun _ => 1).symm
  rw [Finset.sum_congr rfl fun p hp => chanceCount_mul_klFun
    (List.mem_toFinset.mp (Finset.mem_product.mp hp).1)
    (List.mem_toFinset.mp (Finset.mem_product.mp hp).2), Finset.sum_add_distrib,
    Finset.sum_sub_distrib, Finset.sum_sub_distrib, hseen, hchance, sum_chanceCount hlength, hcounts,
    sub_self, add_zero]
  unfold plugInValue entropyValue
  rw [hpairs, ← hlength]
  by_cases hempty : xs.length = 0
  · obtain rfl := List.eq_nil_of_length_eq_zero hempty
    obtain rfl := List.eq_nil_of_length_eq_zero hlength.symm
    simp [logCounts]
  · have hn : (xs.length : ℝ) ≠ 0 := Nat.cast_ne_zero.mpr hempty
    field_simp
    ring

end Divergence

section Bounds

variable {xs : List β} {ys : List γ}

theorem chanceCount_mul_klFun_nonneg {p : β × γ} (hx : p.1 ∈ xs) (hy : p.2 ∈ ys) :
    0 ≤ chanceCount xs ys p * klFun ((xs.zip ys).count p / chanceCount xs ys p) := by
  have hpos := chanceCount_pos hx hy
  exact mul_nonneg hpos.le (klFun_nonneg (by positivity))

variable (hlength : xs.length = ys.length)

include hlength

omit [LawfulBEq β] [LawfulBEq γ] in
theorem areIndependent_iff (hne : xs ≠ []) :
    AreIndependent xs ys ↔ ∀ p, ((xs.zip ys).count p : ℝ) = chanceCount xs ys p := by
  have hn : (xs.length : ℝ) ≠ 0 := by simpa using hne
  unfold AreIndependent chanceCount
  rw [← hlength, Prod.forall]
  refine forall₂_congr fun x y => ?_
  rw [div_mul_div_comm, div_eq_div_iff hn (mul_ne_zero hn hn), eq_div_iff hn, ← mul_assoc]
  exact mul_left_inj' hn

theorem plugInValue_nonneg : 0 ≤ plugInValue xs ys := by
  classical
  by_cases hempty : xs = []
  · obtain rfl : ys = [] := List.eq_nil_of_length_eq_zero (by rw [← hlength, hempty, List.length_nil])
    simp [hempty, plugInValue, entropyValue, logCounts]
  · have hn : 0 < (xs.length : ℝ) := Nat.cast_pos.mpr (List.length_pos_iff.mpr hempty)
    refine nonneg_of_mul_nonneg_right ?_ hn
    rw [length_mul_plugInValue hlength]
    exact Finset.sum_nonneg fun p hp => chanceCount_mul_klFun_nonneg
      (List.mem_toFinset.mp (Finset.mem_product.mp hp).1)
      (List.mem_toFinset.mp (Finset.mem_product.mp hp).2)

/-- Gibbs' inequality is strict but for independent symbols. -/
theorem plugInValue_eq_zero_iff (hne : xs ≠ []) : plugInValue xs ys = 0 ↔ AreIndependent xs ys := by
  classical
  have hn : (xs.length : ℝ) ≠ 0 := by simpa using hne
  have hmem {p : β × γ} (hp : p ∈ xs.toFinset ×ˢ ys.toFinset) : p.1 ∈ xs ∧ p.2 ∈ ys :=
    (Finset.mem_product.mp hp).imp List.mem_toFinset.mp List.mem_toFinset.mp
  have hterm (p : β × γ) (hp : p ∈ xs.toFinset ×ˢ ys.toFinset) :
      chanceCount xs ys p * klFun ((xs.zip ys).count p / chanceCount xs ys p) = 0 ↔
        ((xs.zip ys).count p : ℝ) = chanceCount xs ys p := by
    have hpos := chanceCount_pos (hmem hp).1 (hmem hp).2
    rw [mul_eq_zero, or_iff_right hpos.ne', klFun_eq_zero_iff (by positivity), div_eq_one_iff_eq hpos.ne']
  rw [← mul_eq_zero_iff_left hn, length_mul_plugInValue hlength, Finset.sum_eq_zero_iff_of_nonneg
    fun p hp => chanceCount_mul_klFun_nonneg (hmem hp).1 (hmem hp).2, areIndependent_iff hlength hne]
  refine ⟨fun hzero p => ?_, fun h p hp => (hterm p hp).mpr (h p)⟩
  by_cases hp : p ∈ xs.toFinset ×ˢ ys.toFinset
  · exact (hterm p hp).mp (hzero p hp)
  · -- a pair with a symbol that does not occur is neither seen nor expected
    have hunseen : (xs.zip ys).count p = 0 := by
      refine List.count_eq_zero.mpr fun hseen => hp (Finset.mem_product.mpr ?_)
      exact (List.of_mem_zip hseen).imp List.mem_toFinset.mpr List.mem_toFinset.mpr
    have hchance : chanceCount xs ys p = 0 := by
      rw [Finset.mem_product, List.mem_toFinset, List.mem_toFinset, not_and_or] at hp
      unfold chanceCount
      rcases hp with hx | hy
      · rw [List.count_eq_zero.mpr hx, Nat.cast_zero, zero_mul, zero_div]
      · rw [List.count_eq_zero.mpr hy, Nat.cast_zero, mul_zero, zero_div]
    rw [hunseen, hchance, Nat.cast_zero]

theorem plugInValue_le_left : plugInValue xs ys ≤ entropyValue xs := by
  have hseconds := entropyValue_map_le (xs.zip ys) Prod.snd
  rw [List.map_snd_zip hlength.ge] at hseconds
  unfold plugInValue
  linarith

theorem plugInValue_le_right : plugInValue xs ys ≤ entropyValue ys := by
  have hfirsts := entropyValue_map_le (xs.zip ys) Prod.fst
  rw [List.map_fst_zip hlength.le] at hfirsts
  unfold plugInValue
  linarith

/-- Symbols that are all the same tell nothing. -/
theorem plugInValue_eq_zero_of_constant (h : IsConstantList xs ∨ IsConstantList ys) :
    plugInValue xs ys = 0 := by
  refine le_antisymm ?_ (plugInValue_nonneg hlength)
  rcases h with h | h
  · exact (plugInValue_le_left hlength).trans h.entropyValue_eq.le
  · exact (plugInValue_le_right hlength).trans h.entropyValue_eq.le

end Bounds

theorem plugInValue_self (xs : List β) : plugInValue xs xs = entropyValue xs := by
  unfold plugInValue
  rw [entropyValue_zip_self, add_sub_cancel_right]

/-- Where a side of the samples is constant, so are their symbols. -/
theorem Samples.isConstantList_ids {s : Samples Exact} (h : s.values.isConstant = true) :
    IsConstantList s.ids := fun _ hx _ hy =>
  Matrix.eq_of_mem_rowIds
    (fun row hrow other hother => (Matrix.isConstant_iff.mp h row hrow other hother).1) hx hy

/-- The plug-in estimate lies between 0 and the smaller entropy. It is 0 for independent symbols only, so
that an estimator that answers 0 at once where a side is constant answers the same; and of themselves
symbols tell all there is to know. -/
theorem plugIn_bounds {xs : List β} {ys : List γ} (hlength : xs.length = ys.length) (hne : xs ≠ []) :
    ∃ information first second : ℝ, plugIn xs ys = Exact.real information ∧
      entropy xs = Exact.real first ∧ entropy ys = Exact.real second ∧
      0 ≤ information ∧ information ≤ min first second ∧
      (information = 0 ↔ AreIndependent xs ys) ∧
      (IsConstantList xs ∨ IsConstantList ys → information = 0) ∧
      (∀ (secret output : Samples Exact) (p : EstimatorParams), secret.size = output.size →
        (secret.values.isConstant || output.values.isConstant) = true →
        plugIn secret.ids output.ids = (0 : Exact) ∧ (estimate secret output p).1 = 0) ∧
      plugIn xs xs = Exact.real first := by
  refine ⟨_, _, _, plugIn_eq xs ys, entropy_eq xs, entropy_eq ys, plugInValue_nonneg hlength,
    le_min (plugInValue_le_left hlength) (plugInValue_le_right hlength),
    plugInValue_eq_zero_iff hlength hne, plugInValue_eq_zero_of_constant hlength, ?_, ?_⟩
  · intro secret output p hsizes hconstant
    have hlength : secret.ids.length = output.ids.length := by
      rw [Samples.length_ids, Samples.length_ids, hsizes]
    have hsides : IsConstantList secret.ids ∨ IsConstantList output.ids :=
      ((Bool.or_eq_true _ _).mp hconstant).imp Samples.isConstantList_ids Samples.isConstantList_ids
    refine ⟨?_, estimate_constant hconstant⟩
    rw [plugIn_eq, plugInValue_eq_zero_of_constant hlength hsides, Exact.zero_eq]
  · rw [plugIn_eq, plugInValue_self]

/-- Two of three symbols agree, so that one side tells something about the other. -/
theorem plugIn_twoOfThree : [0, 0, 1].length = [0, 1, 1].length ∧ [0, 0, 1] ≠ [] ∧
    ∃ information : ℝ, plugIn [0, 0, 1] [0, 1, 1] = Exact.real information ∧ 0 < information := by
  have hlength : [0, 0, 1].length = [0, 1, 1].length := rfl
  have hne : [0, 0, 1] ≠ [] := by simp
  obtain ⟨information, _, _, hinformation, _, _, hnonneg, _, hzero, _⟩ := plugIn_bounds hlength hne
  refine ⟨hlength, hne, information, hinformation, hnonneg.lt_of_ne' fun hindependent => ?_⟩
  have hboth := hzero.mp hindependent 0 0
  norm_num [List.count_cons] at hboth

end InfoFlow
