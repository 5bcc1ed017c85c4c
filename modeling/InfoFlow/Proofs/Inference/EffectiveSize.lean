import InfoFlow.Proofs.Inference.Deviations
import InfoFlow.Proofs.Program.Except

namespace InfoFlow

/-- What would break off a diagnostic. -/
inductive DiagnosticFault where
  | outOfBounds
  | divisionByZero
  deriving Repr, DecidableEq

namespace Diagnostics

namespace Guarded

/-- The first `n` entries, which have to be there. -/
def firstOf {β : Type} (xs : List β) (n : ℕ) : Except DiagnosticFault (List β) :=
  if n ≤ xs.length then .ok (xs.take n) else .error .outOfBounds

/-- The entries after the first `n`, which have to be there. -/
def restOf {β : Type} (xs : List β) (n : ℕ) : Except DiagnosticFault (List β) :=
  if n ≤ xs.length then .ok (xs.drop n) else .error .outOfBounds

/-- A difference of positions, which must not be negative. -/
def difference (n k : ℕ) : Except DiagnosticFault ℕ :=
  if k ≤ n then .ok (n - k) else .error .outOfBounds

variable {α : Type} [Scalar α]

def quotient (x y : α) : Except DiagnosticFault α :=
  if y == 0 then .error .divisionByZero else .ok (x / y)

def mean (xs : List α) : Except DiagnosticFault α :=
  quotient (Scalar.sum xs) (Scalar.ofNat xs.length)

def autocovariance (xs : List α) (center : α) (lag : ℕ) : Except DiagnosticFault α := do
  let earlier ← firstOf xs (← difference xs.length lag)
  let later ← restOf xs lag
  quotient (Scalar.sum (List.zipWith (fun a b => (a - center) * (b - center)) earlier later))
    (Scalar.ofNat xs.length)

def pairSum (correlation : ℕ → Except DiagnosticFault α) (n lag : ℕ) (sum : α) :
    Except DiagnosticFault α :=
  if lag + 1 < n then do
    let pair := (← correlation lag) + (← correlation (lag + 1))
    if pair < 0 then return sum else pairSum correlation n (lag + 2) (sum + pair)
  else return sum
termination_by n - lag

/-- The first `n` draws of a chain, their mean and their variance. -/
def moments (chain : List α) (n : ℕ) : Except DiagnosticFault (List α × α × α) := do
  let c ← firstOf chain n
  let center ← mean c
  return (c, center, ← autocovariance c center 0)

/-- The autocorrelation of some chains, averaged over `count` of them. -/
def correlation (chains : List (List α × α × α)) (count : α) (lag : ℕ) :
    Except DiagnosticFault α := do
  let terms ← chains.mapM fun (c, center, variance) => do
    quotient (← autocovariance c center lag) variance
  quotient (Scalar.sum terms) count

/-- The effective sample size, with every slice, every difference of positions and every divisor checked. -/
def effectiveSize (chains : List (List α)) : Except DiagnosticFault α :=
  let n := commonLength chains
  let count : α := Scalar.ofNat chains.length
  let total := Scalar.ofNat n * count
  if n < 4 then return total
  else do
    let moments ← chains.mapM (moments · n)
    if moments.any fun (_, _, variance) => variance == 0 then return total
    else do
      let sum ← pairSum (correlation moments count) n 0 0
      let least ← quotient 1 (Scalar.max (Scalar.log10 total) 1)
      quotient total (Scalar.max (2 * sum - 1) least)

section Steps

variable {β : Type} {xs : List β} {n k lag : ℕ} {x y sum : α}

theorem firstOf_eq_ok (h : n ≤ xs.length) : firstOf xs n = .ok (xs.take n) := if_pos h

theorem restOf_eq_ok (h : n ≤ xs.length) : restOf xs n = .ok (xs.drop n) := if_pos h

theorem difference_eq_ok (h : k ≤ n) : difference n k = .ok (n - k) := if_pos h

theorem quotient_eq_ok (h : (y == 0) = false) : quotient x y = .ok (x / y) :=
  if_neg (by rw [h]; exact Bool.false_ne_true)

/-- Pairs of draws that are `lag` apart begin with the draws that have one so far behind them. -/
theorem autocovariance_eq_ok {xs : List α} (hlag : lag ≤ xs.length)
    (hlength : ((Scalar.ofNat xs.length : α) == 0) = false) (center : α) :
    autocovariance xs center lag = .ok (Diagnostics.autocovariance xs center lag) := by
  have hpairs : List.zipWith (fun a b => (a - center) * (b - center)) (xs.take (xs.length - lag))
      (xs.drop lag) = List.zipWith (fun a b => (a - center) * (b - center)) xs (xs.drop lag) := by
    conv_rhs => rw [List.zipWith_eq_zipWith_take_min]
    rw [List.length_drop, min_eq_right (Nat.sub_le _ _),
      List.take_of_length_le (l := xs.drop lag) (List.length_drop.le)]
  unfold autocovariance Diagnostics.autocovariance
  rw [difference_eq_ok hlag, Except.ok_bind, firstOf_eq_ok (Nat.sub_le _ _), Except.ok_bind,
    restOf_eq_ok hlag, Except.ok_bind, hpairs, quotient_eq_ok hlength]

theorem pairSum_eq_ok {correlation : ℕ → Except DiagnosticFault α} {rho : ℕ → α}
    (h : ∀ lag < n, correlation lag = .ok (rho lag)) :
    pairSum correlation n lag sum = .ok (Diagnostics.pairSum rho n lag sum) := by
  fun_induction Diagnostics.pairSum rho n lag sum with
  | case1 lag sum hlt pair hneg =>
    unfold pairSum
    rw [if_pos hlt, h lag (by omega), h (lag + 1) hlt]
    exact if_pos hneg
  | case2 lag sum hlt pair hneg ih =>
    unfold pairSum
    rw [if_pos hlt, h lag (by omega), h (lag + 1) hlt]
    exact (if_neg hneg).trans ih
  | case3 lag sum hend =>
    unfold pairSum
    rw [if_neg hend]
    rfl

end Steps

end Guarded

section Reals

/-- As many draws of each chain as the shortest one has. -/
def shared {β : Type} (chains : List (List β)) : List (List β) :=
  chains.map (List.take (commonLength chains))

/-- How many draws these are. -/
noncomputable def drawCount (chains : List (List ℝ)) : ℝ := commonLength chains * chains.length

/-- The autocorrelation of some parts, averaged over them. -/
noncomputable def correlation (parts : List (List ℝ)) (lag : ℕ) : ℝ :=
  (parts.map fun part => deviationProducts part lag / deviationProducts part 0).sum / parts.length

/-- The least correlation time there is for a number of draws. -/
noncomputable def leastTime (total : ℝ) : ℝ := 1 / max (Real.logb (10 : ℕ) total) 1

/-- How many draws are worth a single one. -/
noncomputable def correlationTime (chains : List (List ℝ)) : ℝ :=
  max ((2 : ℕ) * (pairSum (fun lag => Exact.real (correlation (shared chains) lag)) (commonLength chains) 0
    0).toReal - 1) (leastTime (drawCount chains))

variable {chains others : List (List ℝ)} {parts : List (List ℝ)} {a b total : ℝ}

theorem leastTime_pos (total : ℝ) : 0 < leastTime total :=
  one_div_pos.mpr (lt_max_of_lt_right one_pos)

theorem correlationTime_pos (chains : List (List ℝ)) : 0 < correlationTime chains :=
  lt_max_of_lt_right (leastTime_pos _)

/-- No draw is worth more than the least correlation time says. -/
theorem div_correlationTime_le (h : 0 ≤ drawCount chains) :
    drawCount chains / correlationTime chains ≤
      drawCount chains * max 1 (Real.logb 10 (drawCount chains)) := by
  have hle : leastTime (drawCount chains) ≤ correlationTime chains := le_max_right _ _
  calc drawCount chains / correlationTime chains
      ≤ drawCount chains / leastTime (drawCount chains) :=
        div_le_div_of_nonneg_left h (leastTime_pos _) hle
    _ = drawCount chains * max 1 (Real.logb 10 (drawCount chains)) := by
        rw [leastTime, Nat.cast_ofNat, div_div_eq_mul_div, div_one, max_comm]

theorem drawCount_perm (h : others.Perm chains) : drawCount others = drawCount chains := by
  unfold drawCount
  rw [commonLength_perm h, h.length_eq]

theorem shared_perm (h : others.Perm chains) : (shared others).Perm (shared chains) := by
  unfold shared
  rw [commonLength_perm h]
  exact h.map _

theorem correlation_perm (h : parts.Perm others) : correlation parts = correlation others := by
  funext lag
  unfold correlation
  rw [(h.map _).sum_eq, h.length_eq]

theorem shared_map {β γ : Type} (f : β → γ) (chains : List (List β)) :
    shared (chains.map (List.map f)) = (shared chains).map (List.map f) := by
  unfold shared
  rw [commonLength_map, List.map_map, List.map_map]
  simp [Function.comp_def]

/-- A factor that all products share cancels in their quotients. -/
theorem correlation_map_affine (ha : a ≠ 0) :
    correlation (parts.map (List.map fun x => a * x + b)) = correlation parts := by
  funext lag
  unfold correlation
  rw [List.map_map, List.length_map]
  simp only [Function.comp_def, deviationProducts_map_affine, mul_div_mul_left _ _ (pow_ne_zero 2 ha)]

theorem isConstant_map_affine {xs : List ℝ} (ha : a ≠ 0) :
    IsConstant (xs.map fun x => a * x + b) ↔ IsConstant xs := by
  rw [← deviationProducts_zero_eq_zero_iff, deviationProducts_map_affine, mul_eq_zero,
    or_iff_right (pow_ne_zero 2 ha), deviationProducts_zero_eq_zero_iff]

end Reals

section Exact

variable {chains others : List (List ℝ)} {a b : ℝ}

theorem pairSum_real (rho : ℕ → ℝ) (n lag : ℕ) (x : ℝ) :
    ∃ y, pairSum (fun lag => Exact.real (rho lag)) n lag (.real x) = .real y := by
  generalize hsum : Exact.real x = sum
  fun_induction pairSum (fun lag => Exact.real (rho lag)) n lag sum generalizing x with
  | case1 lag sum hlt pair hneg => exact ⟨x, hsum.symm⟩
  | case2 lag sum hlt pair hneg ih =>
    refine ih (x + (rho lag + rho (lag + 1))) ?_
    rw [← hsum]
    rfl
  | case3 lag sum hend => exact ⟨x, hsum.symm⟩

/-- The first draws of a chain, their mean and their variance. -/
noncomputable def moment (part : List ℝ) : List Exact × Exact × Exact :=
  (part.map .real, .real (average part), .real (deviationProducts part 0 / part.length))

variable {part : List ℝ}

theorem length_of_mem_shared (h : part ∈ shared chains) : part.length = commonLength chains := by
  obtain ⟨chain, hchain, rfl⟩ := List.mem_map.mp h
  rw [List.length_take, min_eq_left (commonLength_le hchain)]

theorem ne_nil_of_mem_shared (hn : 0 < commonLength chains) (h : part ∈ shared chains) : part ≠ [] :=
  List.ne_nil_of_length_pos (length_of_mem_shared h ▸ hn)

theorem moments_exact (hn : 0 < commonLength chains) :
    ((exact chains).map (List.take (commonLength chains))).map
      (fun c => (c, mean c, autocovariance c (mean c) 0)) = (shared chains).map moment := by
  have hshared : (exact chains).map (List.take (commonLength chains)) =
      (shared chains).map (List.map .real) := by
    rw [← shared_map]
    unfold shared
    rw [commonLength_map]
  rw [hshared, List.map_map]
  refine List.map_congr_left fun part hpart => ?_
  have hne := ne_nil_of_mem_shared hn hpart
  simp only [Function.comp_apply]
  rw [mean_real hne, autocovariance_real hne, moment]

theorem moment_variance_beq (hne : part ≠ []) :
    ((moment part).2.2 == 0) = true ↔ IsConstant part := by
  rw [moment, Exact.zero_eq, Exact.real_beq, decide_eq_true_iff, div_eq_zero_iff,
    or_iff_left (length_cast_ne_zero hne), deviationProducts_zero_eq_zero_iff]

theorem any_moments_iff (hn : 0 < commonLength chains) :
    (((shared chains).map moment).any fun (_, _, variance) => variance == 0) = true ↔
      ∃ part ∈ shared chains, IsConstant part := by
  rw [List.any_map, List.any_eq_true]
  exact exists_congr fun part => and_congr_right fun hpart =>
    moment_variance_beq (ne_nil_of_mem_shared hn hpart)

theorem ne_nil_of_commonLength (hn : 0 < commonLength chains) : chains ≠ [] := by
  rintro rfl
  exact absurd hn (by decide)

theorem total_exact (chains : List (List ℝ)) :
    (Scalar.ofNat (commonLength (exact chains)) * Scalar.ofNat (exact chains).length : Exact) =
      .real (drawCount chains) := by
  rw [commonLength_map, List.length_map, Exact.ofNat_eq, Exact.ofNat_eq, Exact.real_mul]
  rfl

theorem correlation_exact (hn : 0 < commonLength chains)
    (hvaries : ∀ part ∈ shared chains, ¬ IsConstant part) (lag : ℕ) :
    Scalar.sum (((shared chains).map moment).map fun (c, center, variance) =>
      autocovariance c center lag / variance) / Scalar.ofNat (exact chains).length =
        Exact.real (correlation (shared chains) lag) := by
  have hcount := length_cast_ne_zero (ne_nil_of_commonLength hn)
  have hterms : (((shared chains).map moment).map fun (c, center, variance) =>
      autocovariance c center lag / variance) =
        ((shared chains).map fun part => deviationProducts part lag / deviationProducts part 0).map
          .real := by
    rw [List.map_map, List.map_map]
    refine List.map_congr_left fun part hpart => ?_
    have hne := ne_nil_of_mem_shared hn hpart
    have hlength := length_cast_ne_zero hne
    have hproducts : deviationProducts part 0 ≠ 0 :=
      mt deviationProducts_zero_eq_zero_iff.mp (hvaries part hpart)
    simp only [Function.comp_apply, moment]
    rw [autocovariance_real hne, Exact.real_div (div_ne_zero hproducts hlength),
      div_div_div_cancel_right₀ hlength]
  rw [hterms, Exact.sum_map_real, List.length_map, Exact.ofNat_eq, Exact.real_div hcount, correlation,
    shared, List.length_map]

theorem drawCount_pos (hn : 0 < commonLength chains) : 0 < drawCount chains := by
  have hcount := List.length_pos_iff.mpr (ne_nil_of_commonLength hn)
  exact mul_pos (by exact_mod_cast hn) (by exact_mod_cast hcount)

theorem log10_exact {x : ℝ} (hx : 0 < x) : Scalar.log10 (Exact.real x) = .real (Real.logb 10 x) := by
  change (if 0 < x then Exact.real (Real.log x / Real.log 10) else _) = _
  rw [if_pos hx]
  rfl

theorem leastTime_exact (hn : 0 < commonLength chains) :
    (1 / Scalar.max (Scalar.log10 (.real (drawCount chains))) 1 : Exact) =
      .real (leastTime (drawCount chains)) := by
  have hlargest : max (Real.logb 10 (drawCount chains)) 1 ≠ 0 := (lt_max_of_lt_right one_pos).ne'
  rw [log10_exact (drawCount_pos hn), Exact.one_eq, Exact.max_real, Exact.real_div hlargest, leastTime,
    Nat.cast_ofNat]

theorem correlationTime_exact (chains : List (List ℝ)) :
    (Scalar.max (2 * pairSum (fun lag => .real (correlation (shared chains) lag)) (commonLength chains) 0
      0 - 1) (.real (leastTime (drawCount chains))) : Exact) = .real (correlationTime chains) := by
  have htwo : (2 : Exact) = .real 2 := by
    change Exact.real ((2 : ℕ) : ℝ) = .real 2
    norm_num
  obtain ⟨y, hy⟩ := pairSum_real (correlation (shared chains)) (commonLength chains) 0 0
  rw [← Exact.zero_eq] at hy
  unfold correlationTime
  rw [hy, htwo, Exact.one_eq, Exact.real_mul, Exact.real_sub, Exact.max_real]
  rfl

end Exact

section Size

variable {chains others : List (List ℝ)} {a b : ℝ}

theorem effectiveSize_of_short (h : commonLength chains < 4) :
    effectiveSize (exact chains) = .real (drawCount chains) := by
  rw [← total_exact]
  unfold effectiveSize
  dsimp only
  rw [if_pos (by rwa [commonLength_map])]

theorem effectiveSize_of_constant (h : ∃ part ∈ shared chains, IsConstant part) :
    effectiveSize (exact chains) = .real (drawCount chains) := by
  rcases Nat.lt_or_ge (commonLength chains) 4 with hshort | hn
  · exact effectiveSize_of_short hshort
  · have hpos : 0 < commonLength chains := by omega
    unfold effectiveSize
    dsimp only
    rw [total_exact, commonLength_map, if_neg (by omega), moments_exact hpos,
      if_pos ((any_moments_iff hpos).mpr h)]

theorem effectiveSize_of_varies (hn : 4 ≤ commonLength chains)
    (h : ∀ part ∈ shared chains, ¬ IsConstant part) :
    effectiveSize (exact chains) = .real (drawCount chains / correlationTime chains) := by
  have hpos : 0 < commonLength chains := by omega
  have hany : ¬ (((shared chains).map moment).any fun (_, _, variance) => variance == 0) = true := by
    rw [any_moments_iff hpos]
    push Not
    exact h
  unfold effectiveSize
  dsimp only
  rw [total_exact, commonLength_map, if_neg (by omega), moments_exact hpos, if_neg hany,
    leastTime_exact hpos]
  simp only [correlation_exact hpos h]
  rw [correlationTime_exact, Exact.real_div (correlationTime_pos chains).ne']

namespace Guarded

variable {lag : ℕ}

theorem ofNat_beq_zero {n : ℕ} (h : 0 < n) : ((Scalar.ofNat n : Exact) == 0) = false := by
  rw [Exact.ofNat_eq, Exact.zero_eq, Exact.real_beq, decide_eq_false_iff_not]
  exact_mod_cast h.ne'

theorem real_beq_zero {x : ℝ} (h : 0 < x) : (Exact.real x == 0) = false := by
  rw [Exact.zero_eq, Exact.real_beq, decide_eq_false_iff_not]
  exact h.ne'

theorem moments_eq_ok (hn : 0 < commonLength chains) :
    (exact chains).mapM (moments · (commonLength chains)) = .ok ((shared chains).map moment) := by
  rw [← moments_exact hn, List.map_map]
  refine Except.mapM_eq_ok_map fun c hc => ?_
  have hle : commonLength chains ≤ c.length :=
    commonLength_map Exact.real chains ▸ commonLength_le hc
  have hlength : ((Scalar.ofNat (c.take (commonLength chains)).length : Exact) == 0) = false := by
    rw [List.length_take, min_eq_left hle]
    exact ofNat_beq_zero hn
  unfold moments
  rw [firstOf_eq_ok hle, Except.ok_bind, mean, quotient_eq_ok hlength, Except.ok_bind,
    autocovariance_eq_ok (Nat.zero_le _) hlength]
  rfl

theorem correlation_eq_ok (hlag : lag < commonLength chains)
    (hvaries : ∀ part ∈ shared chains, ¬ IsConstant part) :
    correlation ((shared chains).map moment) (Scalar.ofNat (exact chains).length) lag =
      .ok (.real (Diagnostics.correlation (shared chains) lag)) := by
  have hn : 0 < commonLength chains := by omega
  have hcount : ((Scalar.ofNat (exact chains).length : Exact) == 0) = false := by
    rw [List.length_map]
    exact ofNat_beq_zero (List.length_pos_iff.mpr (ne_nil_of_commonLength hn))
  have hterms : ((shared chains).map moment).mapM (fun (c, center, variance) => do
      quotient (← autocovariance c center lag) variance) =
        .ok (((shared chains).map moment).map fun (c, center, variance) =>
          Diagnostics.autocovariance c center lag / variance) := by
    apply Except.mapM_eq_ok_map
    intro entry hentry
    obtain ⟨part, hpart, rfl⟩ := List.mem_map.mp hentry
    have hlength := length_of_mem_shared hpart
    have hne := ne_nil_of_mem_shared hn hpart
    have hle : lag ≤ (part.map Exact.real).length := by
      rw [List.length_map, hlength]
      exact hlag.le
    have hsize : ((Scalar.ofNat (part.map Exact.real).length : Exact) == 0) = false := by
      rw [List.length_map, hlength]
      exact ofNat_beq_zero hn
    have hvariance : ((moment part).2.2 == 0) = false :=
      Bool.eq_false_iff.mpr (mt (moment_variance_beq hne).mp (hvaries part hpart))
    dsimp only [moment] at hvariance ⊢
    rw [autocovariance_eq_ok hle hsize, Except.ok_bind, quotient_eq_ok hvariance]
  unfold correlation
  rw [hterms, Except.ok_bind, quotient_eq_ok hcount, correlation_exact hn hvaries]

/-- No check fails. -/
theorem effectiveSize_eq_ok (chains : List (List ℝ)) :
    effectiveSize (exact chains) = .ok (Diagnostics.effectiveSize (exact chains)) := by
  unfold effectiveSize
  dsimp only
  rw [total_exact, commonLength_map]
  split
  case isTrue hshort =>
    rw [effectiveSize_of_short hshort]
    rfl
  case isFalse hlong =>
    have hn : 0 < commonLength chains := by omega
    rw [moments_eq_ok hn, Except.ok_bind]
    split
    case isTrue hany =>
      rw [effectiveSize_of_constant ((any_moments_iff hn).mp hany)]
      rfl
    case isFalse hany =>
      rw [any_moments_iff hn] at hany
      push Not at hany
      have hlargest : ((Scalar.max (Scalar.log10 (.real (drawCount chains))) 1 : Exact) == 0) = false := by
        rw [log10_exact (drawCount_pos hn), Exact.one_eq, Exact.max_real]
        exact real_beq_zero (lt_max_of_lt_right one_pos)
      rw [pairSum_eq_ok fun lag hlag => correlation_eq_ok hlag hany, Except.ok_bind,
        quotient_eq_ok hlargest, Except.ok_bind, leastTime_exact hn, correlationTime_exact,
        quotient_eq_ok (real_beq_zero (correlationTime_pos chains)),
        effectiveSize_of_varies (by omega) hany, Exact.real_div (correlationTime_pos chains).ne']

end Guarded

theorem effectiveSize_congr (hlength : commonLength others = commonLength chains)
    (hcount : drawCount others = drawCount chains)
    (hconstant : (∃ part ∈ shared others, IsConstant part) ↔ ∃ part ∈ shared chains, IsConstant part)
    (hcorrelation : correlation (shared others) = correlation (shared chains)) :
    effectiveSize (exact others) = effectiveSize (exact chains) := by
  rcases Nat.lt_or_ge (commonLength chains) 4 with hshort | hn
  · rw [effectiveSize_of_short hshort, effectiveSize_of_short (hlength ▸ hshort), hcount]
  by_cases h : ∃ part ∈ shared chains, IsConstant part
  · rw [effectiveSize_of_constant h, effectiveSize_of_constant (hconstant.mpr h), hcount]
  · have hothers := mt hconstant.mp h
    push Not at h hothers
    rw [effectiveSize_of_varies hn h, effectiveSize_of_varies (hlength ▸ hn) hothers]
    unfold correlationTime
    rw [hlength, hcount, hcorrelation]

/-- The effective size of chains of numbers: nothing breaks it off, it is positive and at most a little more
than the number of draws, it is that number for short and for constant chains, and neither the order of the
chains nor the unit of the draws changes it. -/
theorem effectiveSize_spec (chains : List (List ℝ)) :
    Guarded.effectiveSize (exact chains) = .ok (effectiveSize (exact chains)) ∧
    (0 < drawCount chains → ∃ x, effectiveSize (exact chains) = .real x ∧ 0 < x ∧
      x ≤ drawCount chains * max 1 (Real.logb 10 (drawCount chains))) ∧
    ((commonLength chains < 4 ∨ ∃ chain ∈ chains, IsConstant (chain.take (commonLength chains))) →
      effectiveSize (exact chains) = .real (drawCount chains)) ∧
    (∀ others, others.Perm chains → effectiveSize (exact others) = effectiveSize (exact chains)) ∧
    ∀ a b, a ≠ 0 →
      effectiveSize (exact (chains.map (List.map fun x => a * x + b))) =
        effectiveSize (exact chains) := by
  have hshared : (∃ part ∈ shared chains, IsConstant part) ↔
      ∃ chain ∈ chains, IsConstant (chain.take (commonLength chains)) := by
    simp [shared]
  refine ⟨Guarded.effectiveSize_eq_ok chains, ?bounds, ?independent, ?order, ?unit⟩
  case bounds =>
    intro hpos
    have hle := le_mul_of_one_le_right hpos.le (le_max_left 1 (Real.logb 10 (drawCount chains)))
    rcases Nat.lt_or_ge (commonLength chains) 4 with hshort | hn
    · exact ⟨_, effectiveSize_of_short hshort, hpos, hle⟩
    by_cases h : ∃ part ∈ shared chains, IsConstant part
    · exact ⟨_, effectiveSize_of_constant h, hpos, hle⟩
    · push Not at h
      exact ⟨_, effectiveSize_of_varies hn h, div_pos hpos (correlationTime_pos chains),
        div_correlationTime_le hpos.le⟩
  case independent =>
    rintro (hshort | hconstant)
    · exact effectiveSize_of_short hshort
    · exact effectiveSize_of_constant (hshared.mpr hconstant)
  case order =>
    intro others hperm
    have hparts := shared_perm hperm
    refine effectiveSize_congr (commonLength_perm hperm) (drawCount_perm hperm) ?_
      (correlation_perm hparts)
    exact exists_congr fun part => and_congr_left' hparts.mem_iff
  case unit =>
    intro a b ha
    have hlength := commonLength_map (fun x => a * x + b) chains
    refine effectiveSize_congr hlength ?_ ?_ ?_
    · unfold drawCount
      rw [hlength, List.length_map]
    · simp [shared_map, isConstant_map_affine ha]
    · rw [shared_map, correlation_map_affine ha]

/-- Two chains of different lengths: their effective size is positive and bounded, and the same in the other
order and in another unit. Three draws of one chain count as three. -/
theorem unevenChains_effectiveSize :
    let chains : List (List ℝ) := [[1, 2, 1, 2], [3, 3, 5, 3, 4]]
    0 < drawCount chains ∧ (-2 : ℝ) ≠ 0 ∧
      (∃ x, effectiveSize (exact chains) = .real x ∧ 0 < x ∧
        x ≤ drawCount chains * max 1 (Real.logb 10 (drawCount chains))) ∧
      effectiveSize (exact [[3, 3, 5, 3, 4], [1, 2, 1, 2]]) = effectiveSize (exact chains) ∧
      effectiveSize (exact (chains.map (List.map fun x => -2 * x + 7))) = effectiveSize (exact chains) ∧
      effectiveSize (exact [[1, 2, 3]]) = .real (drawCount [[1, 2, 3]]) := by
  intro chains
  obtain ⟨-, hbounds, -, horder, hunit⟩ := effectiveSize_spec chains
  have hpos : 0 < drawCount chains := drawCount_pos (by simp [commonLength, chains])
  have hfactor : (-2 : ℝ) ≠ 0 := by norm_num
  exact ⟨hpos, hfactor, hbounds hpos, horder _ (List.Perm.swap _ _ _), hunit _ _ hfactor,
    (effectiveSize_spec [[1, 2, 3]]).2.2.1 (.inl (by simp [commonLength]))⟩

end Size

end Diagnostics

end InfoFlow
