import InfoFlow.Proofs.Inference.Deviations
import InfoFlow.Proofs.Information.Rescaling

namespace InfoFlow.Diagnostics

section Parts

/-- The variance between parts of `n` draws each. -/
noncomputable def between (n : ℕ) (parts : List (List ℝ)) : ℝ :=
  n * deviationProducts (parts.map average) 0 / (parts.length - 1)

/-- The mean of the variances within parts of `n` draws each. -/
noncomputable def within (n : ℕ) (parts : List (List ℝ)) : ℝ :=
  (parts.map fun part => deviationProducts part 0 / (n - 1)).sum / parts.length

/-- The scale reduction of parts of `n` draws each. -/
noncomputable def scaleReduction (n : ℕ) (parts : List (List ℝ)) : Option ℝ :=
  if within n parts = 0 then if between n parts = 0 then some 1 else none
  else some (Real.sqrt (((n - 1) / n * within n parts + between n parts / n) / within n parts))

variable {n : ℕ} {parts others : List (List ℝ)} {a b x : ℝ}

theorem between_nonneg (n : ℕ) (hparts : 1 < parts.length) : 0 ≤ between n parts := by
  have hcount : (1 : ℝ) < parts.length := by exact_mod_cast hparts
  exact div_nonneg (mul_nonneg n.cast_nonneg (deviationProducts_zero_nonneg _)) (by linarith)

theorem within_nonneg (hn : 1 < n) (parts : List (List ℝ)) : 0 ≤ within n parts := by
  have hsize : (1 : ℝ) < n := by exact_mod_cast hn
  refine div_nonneg (List.sum_nonneg fun variance hvariance => ?_) (Nat.cast_nonneg _)
  obtain ⟨part, _, rfl⟩ := List.mem_map.mp hvariance
  exact div_nonneg (deviationProducts_zero_nonneg part) (by linarith)

theorem within_eq_zero_iff (hn : 1 < n) (hparts : parts ≠ []) :
    within n parts = 0 ↔ ∀ part ∈ parts, IsConstant part := by
  have hsize : (1 : ℝ) < n := by exact_mod_cast hn
  have hcount := length_cast_ne_zero hparts
  have hvariance (part : List ℝ) : deviationProducts part 0 / (n - 1) = 0 ↔ IsConstant part := by
    rw [div_eq_zero_iff, deviationProducts_zero_eq_zero_iff, or_iff_left (by linarith)]
  have hnonneg (variance : ℝ)
      (h : variance ∈ parts.map fun part => deviationProducts part 0 / (n - 1)) : 0 ≤ variance := by
    obtain ⟨part, _, rfl⟩ := List.mem_map.mp h
    exact div_nonneg (deviationProducts_zero_nonneg part) (by linarith)
  unfold within
  rw [div_eq_zero_iff, or_iff_left hcount]
  constructor
  · intro hzero part hpart
    exact (hvariance part).mp
      (List.all_zero_of_le_zero_le_of_sum_eq_zero hnonneg hzero (List.mem_map_of_mem hpart))
  · intro hconstant
    refine List.sum_eq_zero fun variance h => ?_
    obtain ⟨part, hpart, rfl⟩ := List.mem_map.mp h
    exact (hvariance part).mpr (hconstant part hpart)

theorem between_eq_zero_iff (hn : 0 < n) (hparts : 1 < parts.length) :
    between n parts = 0 ↔ IsConstant (parts.map average) := by
  have hsize : (n : ℝ) ≠ 0 := by exact_mod_cast hn.ne'
  have hcount : (parts.length - 1 : ℝ) ≠ 0 := by
    have hgt : (1 : ℝ) < parts.length := by exact_mod_cast hparts
    linarith
  unfold between
  rw [div_eq_zero_iff, or_iff_left hcount, mul_eq_zero, or_iff_right hsize,
    deviationProducts_zero_eq_zero_iff]

/-- Constant parts of one length are told apart by their means. -/
theorem isConstant_average_iff (hn : 0 < n) (hlength : ∀ part ∈ parts, part.length = n)
    (hconstant : ∀ part ∈ parts, IsConstant part) :
    IsConstant (parts.map average) ↔ IsConstant parts := by
  have hreplicate (part : List ℝ) (hpart : part ∈ parts) : part = List.replicate n (average part) := by
    have hne : part ≠ [] := List.ne_nil_of_length_pos (by rw [hlength part hpart]; exact hn)
    refine List.eq_replicate_iff.mpr ⟨hlength part hpart, fun x hx => ?_⟩
    exact (average_of_forall hne fun y hy => hconstant part hpart y hy x hx).symm
  constructor
  · intro hmeans part hpart other hother
    rw [hreplicate part hpart, hreplicate other hother,
      hmeans _ (List.mem_map_of_mem hpart) _ (List.mem_map_of_mem hother)]
  · intro hequal mean hmean mean' hmean'
    obtain ⟨part, hpart, rfl⟩ := List.mem_map.mp hmean
    obtain ⟨other, hother, rfl⟩ := List.mem_map.mp hmean'
    rw [hequal part hpart other hother]

theorem scaleReduction_eq_none_iff (hn : 1 < n) (hparts : 1 < parts.length)
    (hlength : ∀ part ∈ parts, part.length = n) :
    scaleReduction n parts = none ↔ (∀ part ∈ parts, IsConstant part) ∧ ¬ IsConstant parts := by
  have hne : parts ≠ [] := List.ne_nil_of_length_pos (by omega)
  have hpos : 0 < n := by omega
  unfold scaleReduction
  split
  case isTrue hwithin =>
    have hconstant := (within_eq_zero_iff hn hne).mp hwithin
    rw [← isConstant_average_iff hpos hlength hconstant, ← between_eq_zero_iff hpos hparts]
    split
    case isTrue hbetween => simp [hbetween]
    case isFalse hbetween => simpa [hbetween] using hconstant
  case isFalse hwithin =>
    rw [within_eq_zero_iff hn hne] at hwithin
    simp [hwithin]

theorem le_of_scaleReduction (hn : 1 < n) (hparts : 1 < parts.length)
    (h : scaleReduction n parts = some x) : Real.sqrt ((n - 1) / n) ≤ x := by
  have hsize : (1 : ℝ) < n := by exact_mod_cast hn
  unfold scaleReduction at h
  split at h
  case isTrue =>
    split at h
    case isTrue =>
      cases h
      rw [Real.sqrt_le_one, div_le_one (by linarith)]
      linarith
    case isFalse => cases h
  case isFalse hwithin =>
    cases h
    have hpos : 0 < within n parts := lt_of_le_of_ne (within_nonneg hn parts) (Ne.symm hwithin)
    have hshare : 0 ≤ between n parts / n := div_nonneg (between_nonneg n hparts) (by linarith)
    apply Real.sqrt_le_sqrt
    rw [le_div_iff₀ hpos]
    exact le_add_of_nonneg_right hshare

theorem scaleReduction_of_forall (hn : 1 < n) (hparts : 1 < parts.length)
    (hlength : ∀ part ∈ parts, part.length = n) (h : ∀ part ∈ parts, ∀ y ∈ part, y = x) :
    scaleReduction n parts = some 1 := by
  have hne : parts ≠ [] := List.ne_nil_of_length_pos (by omega)
  have hconstant : ∀ part ∈ parts, IsConstant part := fun part hpart y hy z hz =>
    (h part hpart y hy).trans (h part hpart z hz).symm
  have hequal : IsConstant parts := by
    intro part hpart other hother
    rw [List.eq_replicate_iff.mpr ⟨hlength part hpart, h part hpart⟩,
      List.eq_replicate_iff.mpr ⟨hlength other hother, h other hother⟩]
  have hpos : 0 < n := by omega
  have hbetween := (between_eq_zero_iff hpos hparts).mpr
    ((isConstant_average_iff hpos hlength hconstant).mpr hequal)
  unfold scaleReduction
  rw [if_pos ((within_eq_zero_iff hn hne).mpr hconstant), if_pos hbetween]

theorem scaleReduction_perm (n : ℕ) (h : parts.Perm others) :
    scaleReduction n parts = scaleReduction n others := by
  have hwithin : within n parts = within n others := by
    unfold within
    rw [(h.map _).sum_eq, h.length_eq]
  have hbetween : between n parts = between n others := by
    unfold between
    rw [deviationProducts_zero_perm (h.map average), h.length_eq]
  unfold scaleReduction
  rw [hwithin, hbetween]

/-- In another unit both variances are the same multiple of what they were. -/
theorem scaleReduction_map_affine (hparts : ∀ part ∈ parts, part ≠ []) (ha : a ≠ 0) :
    scaleReduction n (parts.map (List.map fun x => a * x + b)) = scaleReduction n parts := by
  have hsquare : a ^ 2 ≠ 0 := pow_ne_zero 2 ha
  have hwithin : within n (parts.map (List.map fun x => a * x + b)) = a ^ 2 * within n parts := by
    unfold within
    rw [List.map_map, List.length_map, ← mul_div_assoc, ← List.sum_map_mul_left]
    simp only [Function.comp_def, deviationProducts_map_affine, mul_div_assoc]
  have hmeans : (parts.map (List.map fun x => a * x + b)).map average =
      (parts.map average).map fun x => a * x + b := by
    rw [List.map_map, List.map_map]
    exact List.map_congr_left fun part hpart => average_map_affine (hparts part hpart)
  have hbetween : between n (parts.map (List.map fun x => a * x + b)) = a ^ 2 * between n parts := by
    unfold between
    rw [hmeans, deviationProducts_map_affine, List.length_map, mul_left_comm, mul_div_assoc]
  have hratio (w v : ℝ) : ((n - 1) / n * (a ^ 2 * w) + a ^ 2 * v / n) / (a ^ 2 * w) =
      ((n - 1) / n * w + v / n) / w := by
    rw [← mul_div_mul_left ((n - 1) / n * w + v / n) w hsquare]
    ring
  unfold scaleReduction
  rw [hwithin, hbetween, hratio]
  simp only [mul_eq_zero, hsquare, false_or]

end Parts

section Chains

variable {chains others : List (List ℝ)} {a b : ℝ}

/-- How many draws each half of a chain has. -/
def halfLength {β : Type} (chains : List (List β)) : ℕ := commonLength chains / 2

theorem one_lt_length_halves (hn : 2 ≤ halfLength chains) :
    1 < (halves (halfLength chains) chains).length := by
  have hne : chains ≠ [] := by
    rintro rfl
    exact absurd hn (by decide)
  have hpos := List.length_pos_iff.mpr hne
  rw [length_halves]
  omega

theorem length_half {half : List ℝ} (h : half ∈ halves (halfLength chains) chains) :
    half.length = halfLength chains :=
  length_of_mem_halves (by unfold halfLength; omega) h

theorem between_exact {n : ℕ} {parts : List (List ℝ)} (hparts : 1 < parts.length) :
    Scalar.ofNat n * squaredDistances (mean ((parts.map average).map Exact.real))
      ((parts.map average).map Exact.real) / (Scalar.ofNat (parts.map (List.map Exact.real)).length - 1) =
        .real (between n parts) := by
  have hcount : (1 : ℝ) < parts.length := by exact_mod_cast hparts
  have hne : parts.map average ≠ [] := List.ne_nil_of_length_pos (by rw [List.length_map]; omega)
  rw [mean_real hne, squaredDistances_real, List.length_map, Exact.ofNat_eq, Exact.ofNat_eq, Exact.one_eq,
    Exact.real_mul, Exact.real_sub, Exact.real_div (by linarith)]
  rfl

theorem within_exact {n : ℕ} {parts : List (List ℝ)} (hn : 1 < n) (hne : parts ≠ []) :
    Scalar.sum ((((parts.map (List.map Exact.real)).zip
      ((parts.map average).map Exact.real)).map fun (half, center) =>
        squaredDistances center half / (Scalar.ofNat n - 1))) /
          Scalar.ofNat (parts.map (List.map Exact.real)).length = .real (within n parts) := by
  have hsize : (1 : ℝ) < n := by exact_mod_cast hn
  have hvariances : (((parts.map (List.map Exact.real)).zip
      ((parts.map average).map Exact.real)).map fun (half, center) =>
        squaredDistances center half / (Scalar.ofNat n - 1)) =
          (parts.map fun part => deviationProducts part 0 / (n - 1)).map .real := by
    rw [List.map_map, List.zip_map', List.map_map, List.map_map]
    refine List.map_congr_left fun part _ => ?_
    simp only [Function.comp_apply]
    rw [squaredDistances_real, Exact.ofNat_eq, Exact.one_eq, Exact.real_sub,
      Exact.real_div (by linarith)]
  rw [hvariances, Exact.sum_map_real, List.length_map, Exact.ofNat_eq,
    Exact.real_div (length_cast_ne_zero hne)]
  rfl

/-- What is computed is the scale reduction of the halves. -/
theorem rHat_exact (hn : 2 ≤ halfLength chains) :
    rHat (exact chains) = (scaleReduction (halfLength chains)
      (halves (halfLength chains) chains)).map .real := by
  have hcount := one_lt_length_halves hn
  have hlength : ∀ half ∈ halves (halfLength chains) chains, half.length = halfLength chains :=
    fun _ => length_half
  have hdef : commonLength (exact chains) / 2 = halfLength chains := by
    unfold halfLength
    rw [commonLength_map]
  unfold rHat
  dsimp only
  rw [hdef, if_neg (by omega), halves_map]
  generalize halfLength chains = n at hn hcount hlength
  generalize halves n chains = parts at hcount hlength
  have hsize : (1 : ℝ) < n := by exact_mod_cast hn
  have hmeans : (parts.map (List.map Exact.real)).map mean = (parts.map average).map .real := by
    rw [List.map_map, List.map_map]
    refine List.map_congr_left fun part hpart => mean_real (List.ne_nil_of_length_pos ?_)
    rw [hlength part hpart]
    omega
  have hnonneg : 0 ≤ ((n - 1) / n * within n parts + between n parts / n) / within n parts := by
    have hw := within_nonneg hn parts
    have hb := between_nonneg n hcount
    have hshare : (0 : ℝ) ≤ (n - 1) / n := div_nonneg (by linarith) (by linarith)
    positivity
  rw [hmeans, between_exact hcount, within_exact hn (List.ne_nil_of_length_pos (by omega)), Exact.zero_eq,
    Exact.real_beq, Exact.real_beq, Exact.one_eq]
  unfold scaleReduction
  simp only [decide_eq_true_eq]
  split
  case isTrue => split <;> rfl
  case isFalse hpos =>
    rw [Exact.ofNat_eq, Exact.real_sub, Exact.real_div (by linarith), Exact.real_mul,
      Exact.real_div (by linarith), Exact.real_add, Exact.real_div hpos, Exact.sqrt_real hnonneg]
    rfl

theorem rHat_of_short (h : halfLength chains < 2) : rHat (exact chains) = none := by
  unfold rHat
  dsimp only
  rw [commonLength_map]
  exact if_pos h

theorem rHat_congr (hlength : halfLength others = halfLength chains)
    (hparts : 2 ≤ halfLength chains →
      scaleReduction (halfLength chains) (halves (halfLength chains) others) =
        scaleReduction (halfLength chains) (halves (halfLength chains) chains)) :
    rHat (exact others) = rHat (exact chains) := by
  rcases Nat.lt_or_ge (halfLength chains) 2 with hshort | hn
  · rw [rHat_of_short hshort, rHat_of_short (hlength ▸ hshort)]
  · rw [rHat_exact hn, rHat_exact (hlength ▸ hn), hlength, hparts hn]

/-- The scale reduction of chains of numbers: when there is none, the least it can be, its value for halves
that are all the same constant, and what it does not depend on. That is draws beyond the halves, the order of
the chains and the unit of the draws. -/
theorem rHat_spec (chains : List (List ℝ)) :
    (rHat (exact chains) = none ↔ chains = [] ∨ halfLength chains < 2 ∨
      (∀ half ∈ halves (halfLength chains) chains, IsConstant half) ∧
        ¬ IsConstant (halves (halfLength chains) chains)) ∧
    (∀ r, rHat (exact chains) = some r → ∃ x, r = .real x ∧
      Real.sqrt ((halfLength chains - 1) / halfLength chains) ≤ x) ∧
    (∀ x, 2 ≤ halfLength chains → (∀ half ∈ halves (halfLength chains) chains, ∀ y ∈ half, y = x) →
      rHat (exact chains) = some 1) ∧
    (∀ others, halfLength others = halfLength chains →
      others.map (List.take (2 * halfLength chains)) = chains.map (List.take (2 * halfLength chains)) →
      rHat (exact others) = rHat (exact chains)) ∧
    (∀ others, others.Perm chains → rHat (exact others) = rHat (exact chains)) ∧
    ∀ a b, a ≠ 0 →
      rHat (exact (chains.map (List.map fun x => a * x + b))) = rHat (exact chains) := by
  refine ⟨?undefined, ?least, ?constant, ?first, ?order, ?unit⟩
  case undefined =>
    rcases Nat.lt_or_ge (halfLength chains) 2 with hshort | hn
    · exact iff_of_true (rHat_of_short hshort) (.inr (.inl hshort))
    · have hne : chains ≠ [] := by
        rintro rfl
        exact absurd hn (by decide)
      rw [rHat_exact hn, Option.map_eq_none_iff, or_iff_right hne, or_iff_right (by omega)]
      exact scaleReduction_eq_none_iff (by omega) (one_lt_length_halves hn) fun _ => length_half
  case least =>
    intro r hr
    rcases Nat.lt_or_ge (halfLength chains) 2 with hshort | hn
    · rw [rHat_of_short hshort] at hr
      cases hr
    · rw [rHat_exact hn] at hr
      obtain ⟨x, hx, rfl⟩ := Option.map_eq_some_iff.mp hr
      exact ⟨x, rfl, le_of_scaleReduction (by omega) (one_lt_length_halves hn) hx⟩
  case constant =>
    intro x hn hx
    rw [rHat_exact hn, scaleReduction_of_forall (by omega) (one_lt_length_halves hn)
      (fun _ => length_half) hx, Exact.one_eq]
    rfl
  case first =>
    intro others hlength hfirst
    refine rHat_congr hlength fun _ => ?_
    rw [← halves_take (halfLength chains) others, hfirst, halves_take]
  case order =>
    intro others hperm
    have hlength : halfLength others = halfLength chains :=
      congrArg (· / 2) (commonLength_perm hperm)
    exact rHat_congr hlength fun _ => scaleReduction_perm _ (halves_perm _ hperm)
  case unit =>
    intro a b ha
    have hlength : halfLength (chains.map (List.map fun x => a * x + b)) = halfLength chains :=
      congrArg (· / 2) (commonLength_map _ chains)
    refine rHat_congr hlength fun hn => ?_
    rw [halves_map]
    refine scaleReduction_map_affine (fun half hhalf => ?_) ha
    exact List.ne_nil_of_length_pos (by rw [length_half hhalf]; omega)

/-- Two constant chains of which one goes on for one draw more: their scale reduction is 1, as it is in
another unit, in the other order, and whatever the draw is that lies beyond the halves. -/
theorem constantChains_rHat :
    let chains : List (List ℝ) := [[2, 2, 2, 2], [2, 2, 2, 2, 3]]
    2 ≤ halfLength chains ∧ (-3 : ℝ) ≠ 0 ∧ rHat (exact chains) = some 1 ∧
      rHat (exact [[2, 2, 2, 2], [2, 2, 2, 2, 7]]) = rHat (exact chains) ∧
      rHat (exact [[2, 2, 2, 2, 3], [2, 2, 2, 2]]) = rHat (exact chains) ∧
      rHat (exact (chains.map (List.map fun x => -3 * x + 1))) = rHat (exact chains) := by
  intro chains
  obtain ⟨-, -, hconstant, hfirst, horder, hunit⟩ := rHat_spec chains
  have hn : halfLength chains = 2 := by simp [halfLength, commonLength, chains]
  have hunequal : (-3 : ℝ) ≠ 0 := by norm_num
  have hconstant' : ∀ half ∈ halves (halfLength chains) chains, ∀ y ∈ half, y = 2 := by
    rw [hn]
    simp [halves, chains]
  have hfirst' : ([[2, 2, 2, 2], [2, 2, 2, 2, 7]] : List (List ℝ)).map (List.take (2 * halfLength chains)) =
      chains.map (List.take (2 * halfLength chains)) := by
    rw [hn]
    rfl
  exact ⟨hn.ge, hunequal, hconstant 2 hn.ge hconstant', hfirst _ rfl hfirst',
    horder _ (List.Perm.swap _ _ _), hunit _ _ hunequal⟩

end Chains

end InfoFlow.Diagnostics
