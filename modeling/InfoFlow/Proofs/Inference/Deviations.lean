import InfoFlow.Inference.Diagnostics
import InfoFlow.Proofs.Scalar.Exact
import Mathlib.Algebra.Order.BigOperators.Group.List
import Mathlib.Data.List.Perm.Basic

namespace InfoFlow.Diagnostics

/-- Draws as exact numbers. -/
abbrev exact (chains : List (List ℝ)) : List (List Exact) := chains.map (List.map .real)

/-- All entries of a list are equal. -/
def IsConstant {β : Type} (xs : List β) : Prop := ∀ x ∈ xs, ∀ y ∈ xs, x = y

section Chains

variable {β γ : Type} {chains others : List (List β)} {n : ℕ}

theorem commonLength_le {chain : List β} (h : chain ∈ chains) : commonLength chains ≤ chain.length := by
  have hlength := List.mem_map_of_mem (f := List.length) h
  obtain ⟨least, hleast⟩ := Option.isSome_iff_exists.mp
    (List.isSome_min?_of_mem hlength)
  unfold commonLength
  rw [hleast]
  exact (List.min?_eq_some_iff.mp hleast).2 _ hlength

theorem commonLength_perm (h : chains.Perm others) : commonLength chains = commonLength others := by
  have hlengths := h.map List.length
  unfold commonLength
  congr 1
  cases hleast : (chains.map List.length).min? with
  | none =>
    rw [List.min?_eq_none_iff] at hleast
    rw [hleast] at hlengths
    exact (List.min?_eq_none_iff.mpr hlengths.nil_eq.symm).symm
  | some least =>
    obtain ⟨hmem, hle⟩ := List.min?_eq_some_iff.mp hleast
    exact (List.min?_eq_some_iff.mpr
      ⟨hlengths.subset hmem, fun length hlength => hle length (hlengths.symm.subset hlength)⟩).symm

theorem commonLength_map (f : β → γ) (chains : List (List β)) :
    commonLength (chains.map (List.map f)) = commonLength chains := by
  unfold commonLength
  rw [List.map_map]
  simp [Function.comp_def]

theorem halves_map (f : β → γ) (n : ℕ) (chains : List (List β)) :
    halves n (chains.map (List.map f)) = (halves n chains).map (List.map f) := by
  simp [halves, List.flatMap_map, List.map_flatMap]

theorem halves_perm (n : ℕ) (h : chains.Perm others) : (halves n chains).Perm (halves n others) :=
  h.flatMap_right _

/-- Both halves of a chain lie within its first draws. -/
theorem halves_take (n : ℕ) (chains : List (List β)) :
    halves n (chains.map (List.take (2 * n))) = halves n chains := by
  unfold halves
  rw [List.flatMap_map]
  refine List.flatMap_congr fun chain _ => ?_
  rw [List.take_take, List.drop_take, List.take_take, min_eq_left (by omega), min_eq_left (by omega)]

theorem length_of_mem_halves {half : List β} (hn : 2 * n ≤ commonLength chains)
    (h : half ∈ halves n chains) : half.length = n := by
  obtain ⟨chain, hchain, hhalf⟩ := List.mem_flatMap.mp h
  have hle := hn.trans (commonLength_le hchain)
  rcases List.mem_pair.mp hhalf with rfl | rfl
  · rw [List.length_take]
    omega
  · rw [List.length_take, List.length_drop]
    omega

theorem length_halves (n : ℕ) (chains : List (List β)) :
    (halves n chains).length = 2 * chains.length := by
  unfold halves
  induction chains with
  | nil => rfl
  | cons chain chains ih =>
    rw [List.flatMap_cons, List.length_append, ih, List.length_cons]
    simp only [List.length_cons, List.length_nil]
    omega

/-- The number of some entries is a divisor that is not zero. -/
theorem length_cast_ne_zero {xs : List β} (hne : xs ≠ []) : (xs.length : ℝ) ≠ 0 :=
  Nat.cast_ne_zero.mpr (List.length_pos_iff.mpr hne).ne'

end Chains

section Reals

noncomputable def average (xs : List ℝ) : ℝ := xs.sum / xs.length

/-- The sum of the products of deviations from the mean that are `lag` apart; of their squares for lag 0. -/
noncomputable def deviationProducts (xs : List ℝ) (lag : ℕ) : ℝ :=
  (List.zipWith (fun x y => (x - average xs) * (y - average xs)) xs (xs.drop lag)).sum

variable {xs ys : List ℝ} {x a b : ℝ}

theorem deviationProducts_zero (xs : List ℝ) :
    deviationProducts xs 0 = (xs.map fun x => (x - average xs) ^ 2).sum := by
  unfold deviationProducts
  rw [List.drop_zero, List.zipWith_self]
  simp only [sq]

theorem deviationProducts_zero_nonneg (xs : List ℝ) : 0 ≤ deviationProducts xs 0 := by
  rw [deviationProducts_zero]
  refine List.sum_nonneg fun square hsquare => ?_
  obtain ⟨x, _, rfl⟩ := List.mem_map.mp hsquare
  exact sq_nonneg _

theorem average_of_forall (hne : xs ≠ []) (h : ∀ y ∈ xs, y = x) : average xs = x := by
  have hlength := length_cast_ne_zero hne
  unfold average
  rw [List.eq_replicate_of_mem h, List.sum_replicate, List.length_replicate, nsmul_eq_mul,
    mul_div_cancel_left₀ _ hlength]

/-- Draws do not deviate from their mean exactly when they are all the same. -/
theorem deviationProducts_zero_eq_zero_iff : deviationProducts xs 0 = 0 ↔ IsConstant xs := by
  rw [deviationProducts_zero]
  constructor
  · intro hzero
    have hmean : ∀ x ∈ xs, x = average xs := by
      intro x hx
      have hterm : (x - average xs) ^ 2 = 0 :=
        List.all_zero_of_le_zero_le_of_sum_eq_zero (by simp [sq_nonneg]) hzero
          (List.mem_map_of_mem (f := fun x => (x - average xs) ^ 2) hx)
      exact sub_eq_zero.mp (pow_eq_zero_iff two_ne_zero |>.mp hterm)
    exact fun x hx y hy => (hmean x hx).trans (hmean y hy).symm
  · intro hconstant
    refine List.sum_eq_zero fun square hsquare => ?_
    obtain ⟨x, hx, rfl⟩ := List.mem_map.mp hsquare
    rw [average_of_forall (List.ne_nil_of_mem hx) fun y hy => hconstant y hy x hx, sub_self,
      zero_pow two_ne_zero]

theorem average_perm (h : xs.Perm ys) : average xs = average ys := by
  unfold average
  rw [h.sum_eq, h.length_eq]

theorem deviationProducts_zero_perm (h : xs.Perm ys) :
    deviationProducts xs 0 = deviationProducts ys 0 := by
  rw [deviationProducts_zero, deviationProducts_zero, average_perm h]
  exact (h.map _).sum_eq

theorem average_map_affine (hne : xs ≠ []) :
    average (xs.map fun x => a * x + b) = a * average xs + b := by
  have hlength := length_cast_ne_zero hne
  unfold average
  rw [List.sum_map_add, List.sum_map_mul_left, List.map_id', List.map_const', List.sum_replicate,
    List.length_map, nsmul_eq_mul]
  field_simp

theorem deviationProducts_map_affine (lag : ℕ) :
    deviationProducts (xs.map fun x => a * x + b) lag = a ^ 2 * deviationProducts xs lag := by
  rcases eq_or_ne xs [] with rfl | hne
  · simp [deviationProducts]
  have hproduct (x y : ℝ) : (a * x + b - (a * average xs + b)) * (a * y + b - (a * average xs + b)) =
      a ^ 2 * ((x - average xs) * (y - average xs)) := by ring
  unfold deviationProducts
  rw [average_map_affine hne, ← List.map_drop, List.zipWith_map]
  simp only [hproduct]
  rw [← List.map_zipWith (f := fun product => a ^ 2 * product), List.sum_map_mul_left, List.map_id']

end Reals

section Exact

variable {xs : List ℝ}

theorem mean_real (hne : xs ≠ []) : mean (xs.map Exact.real) = .real (average xs) := by
  have hlength := length_cast_ne_zero hne
  unfold mean average
  rw [Exact.sum_map_real, List.length_map, Exact.ofNat_eq, Exact.real_div hlength]

theorem squaredDistances_real (xs : List ℝ) :
    squaredDistances (.real (average xs)) (xs.map Exact.real) = .real (deviationProducts xs 0) := by
  rw [deviationProducts_zero, ← Exact.sum_map_real]
  unfold squaredDistances
  simp [List.map_map, Function.comp_def, sq]

theorem autocovariance_real (hne : xs ≠ []) (lag : ℕ) :
    autocovariance (xs.map Exact.real) (.real (average xs)) lag =
      .real (deviationProducts xs lag / xs.length) := by
  have hlength := length_cast_ne_zero hne
  have hproducts : List.zipWith (fun z w => (z - .real (average xs)) * (w - .real (average xs)))
      (xs.map Exact.real) ((xs.map Exact.real).drop lag) =
        (List.zipWith (fun x y => (x - average xs) * (y - average xs)) xs (xs.drop lag)).map
          Exact.real := by
    rw [← List.map_drop, List.zipWith_map, List.map_zipWith]
    simp only [Exact.real_sub, Exact.real_mul]
  unfold autocovariance
  rw [hproducts, Exact.sum_map_real, List.length_map, Exact.ofNat_eq, Exact.real_div hlength]
  rfl

end Exact

end InfoFlow.Diagnostics
