import InfoFlow.CommandLine.Estimate
import InfoFlow.Proofs.Leakage.Curve
import InfoFlow.Proofs.Program.Selector
import InfoFlow.Proofs.Scalar.Words

namespace InfoFlow

section Sizes

/-- A number that is not negative, rounded to the nearest word. -/
private theorem toNat_round {x : ℝ} (hx : 0 ≤ x) :
    ((Scalar.toUInt64 (Scalar.round (Exact.real x))).toNat : ℤ) = min (2 ^ 64 - 1) ⌊x + 1 / 2⌋ := by
  have hround : Scalar.round (Exact.real x) = .real (⌊x + 1 / 2⌋ : ℤ) := by
    change Exact.real (if x < 0 then (⌈x - 1 / 2⌉ : ℝ) else ⌊x + 1 / 2⌋) = _
    rw [if_neg (not_lt.mpr hx)]
  have hfloor : 0 ≤ ⌊x + 1 / 2⌋ := Int.floor_nonneg.mpr (by linarith)
  rw [hround, Exact.toNat_toUInt64, Exact.toWord, Exact.truncate_intCast, max_eq_right (by omega)]

private theorem toNat_round_mono {x y : ℝ} (hx : 0 ≤ x) (hxy : x ≤ y) :
    (Scalar.toUInt64 (Scalar.round (Exact.real x))).toNat ≤
      (Scalar.toUInt64 (Scalar.round (Exact.real y))).toNat := by
  have hfloor : ⌊x + 1 / 2⌋ ≤ ⌊y + 1 / 2⌋ := Int.floor_mono (by linarith)
  have hword := toNat_round hx
  have hword' := toNat_round (hx.trans hxy)
  omega

private theorem toNat_round_natCast {k : ℕ} (hk : k < 2 ^ 64) :
    (Scalar.toUInt64 (Scalar.round (Exact.real k))).toNat = k := by
  have hfloor : ⌊(k : ℝ) + 1 / 2⌋ = k := by
    rw [Int.floor_natCast_add]
    norm_num
  have hword := toNat_round (Nat.cast_nonneg k)
  omega

variable {first n steps : ℕ}

/-- The size that is reached after some of several steps from `first` to `n`. -/
noncomputable def sizeAfter (first n steps i : ℕ) : ℕ :=
  first + (Scalar.toUInt64 (Scalar.round (Exact.real (i * ((n - first : ℕ) / (steps - 1 : ℕ)))))).toNat

theorem sizeAfter_mono (first n steps : ℕ) : Monotone (sizeAfter first n steps) := by
  intro i j hij
  have hstride : (0 : ℝ) ≤ (n - first : ℕ) / (steps - 1 : ℕ) := by positivity
  have hle : (i : ℝ) ≤ j := by exact_mod_cast hij
  exact Nat.add_le_add_left (toNat_round_mono (by positivity) (mul_le_mul_of_nonneg_right hle hstride)) _

/-- No rounding is left at the last step. -/
theorem sizeAfter_last (hfirst : first ≤ n) (hn : n < 2 ^ 64) (hsteps : 1 < steps) :
    sizeAfter first n steps (steps - 1) = n := by
  have hdivisor : ((steps - 1 : ℕ) : ℝ) ≠ 0 := by exact_mod_cast (Nat.sub_pos_of_lt hsteps).ne'
  unfold sizeAfter
  rw [mul_div_cancel₀ _ hdivisor, toNat_round_natCast (by omega)]
  omega

theorem linearSizesWith_exact (hfirst : first < n) (hsteps : 1 < steps) :
    linearSizesWith Exact first n steps = (List.range steps).map (sizeAfter first n steps) := by
  have hdivisor : ((steps - 1 : ℕ) : ℝ) ≠ 0 := by exact_mod_cast (Nat.sub_pos_of_lt hsteps).ne'
  have hgrows : ¬ (steps ≤ 1 || n ≤ first) = true := by simp [hsteps, hfirst]
  unfold linearSizesWith
  rw [if_neg hgrows]
  simp only [Exact.ofNat_eq, Exact.real_div hdivisor, Exact.real_mul]
  rfl

/-- Sizes that grow, or stay the same for a while, from somewhere between two sizes to the second one. -/
structure AscendTo (first n : ℕ) (sizes : List ℕ) : Prop where
  increasing : sizes.Pairwise (· ≤ ·)
  between {size : ℕ} : size ∈ sizes → min first n ≤ size ∧ size ≤ n
  last : sizes.getLast? = some n

theorem ascendTo_linearSizes (first steps : ℕ) (hn : n < 2 ^ 64) :
    AscendTo first n (linearSizesWith Exact first n steps) := by
  by_cases hgrows : 1 < steps ∧ first < n
  · obtain ⟨hsteps, hfirst⟩ := hgrows
    have hmono := sizeAfter_mono first n steps
    have hlast := sizeAfter_last hfirst.le hn hsteps
    rw [linearSizesWith_exact hfirst hsteps]
    constructor
    case increasing =>
      rw [List.pairwise_map]
      exact List.pairwise_lt_range.imp fun hlt => hmono hlt.le
    case between =>
      intro size hsize
      obtain ⟨i, hi, rfl⟩ := List.mem_map.mp hsize
      have hle : i ≤ steps - 1 := Nat.le_sub_one_of_lt (List.mem_range.mp hi)
      exact ⟨(min_le_left _ _).trans (Nat.le_add_right _ _), (hmono hle).trans_eq hlast⟩
    case last =>
      obtain ⟨before, rfl⟩ : ∃ before, steps = before + 1 := ⟨steps - 1, by omega⟩
      rw [List.range_succ, List.map_append, List.map_singleton, List.getLast?_concat]
      exact congrArg some hlast
  · have hsingle : linearSizesWith Exact first n steps = [n] := by
      unfold linearSizesWith
      refine if_pos ?_
      rw [Bool.or_eq_true, decide_eq_true_iff, decide_eq_true_iff]
      omega
    rw [hsingle]
    exact ⟨List.pairwise_singleton _ _, by simp, rfl⟩

end Sizes

section Curve

/-- All samples are their own first samples. -/
theorem Samples.take_size {α : Type} (s : Samples α) : s.take s.size = s := by
  have hrows : s.values.rows.take s.values.rows.size = s.values.rows := by simp
  unfold Samples.take Samples.size Matrix.take Matrix.size
  rw [hrows, if_pos le_rfl]

theorem getLast?_of_increasing {xs : List ℕ} {n : ℕ} (hxs : xs.Pairwise (· < ·)) (hn : n ∈ xs)
    (hle : ∀ x ∈ xs, x ≤ n) : xs.getLast? = some n := by
  have hne : xs ≠ [] := List.ne_nil_of_mem hn
  obtain ⟨before, last, rfl⟩ := (List.eq_nil_or_concat' xs).resolve_left hne
  rw [List.getLast?_concat]
  rcases List.mem_append.mp hn with hbefore | hlast
  · have hlt := (List.pairwise_append.mp hxs).2.2 n hbefore last List.mem_cons_self
    exact absurd (hle last (by simp)) (not_le.mpr hlt)
  · rw [List.mem_singleton.mp hlast]

variable {α : Type} [Scalar α] {secret output : Samples α} {p : EstimatorParams} {sizes : List Nat}
  {deltas : List α} {window : Nat} {isRelative : Bool}

/-- A curve that is evaluated at all samples ends there, with the estimate from them. -/
theorem getLast?_leakageCurve {start : Convergence α}
    (hstart : Convergence.start deltas window isRelative = .ok start) (hneighbors : p.neighbors ≠ 0)
    (hlength : secret.size = output.size) (hfloor : p.sampleFloor.toNat ≤ secret.size)
    (hsizes : secret.size ∈ sizes) :
    ∃ curve e, leakageCurve secret output p sizes deltas window isRelative = .ok curve ∧
      curve.points.getLast? = some ⟨secret.size, e⟩ ∧ mutualInformation secret output p = .ok e := by
  have hmem : secret.size ∈ curveSizes sizes secret.size p.sampleFloor.toNat :=
    mem_curveSizes.mpr ⟨hfloor, secret.size, hsizes, min_self _⟩
  have hlast := getLast?_of_increasing (pairwise_curveSizes sizes secret.size p.sampleFloor.toNat) hmem
    fun size hsize => by
      obtain ⟨-, s, -, rfl⟩ := mem_curveSizes.mp hsize
      exact min_le_right s secret.size
  obtain ⟨points, hloop, hsamples, hestimated⟩ := foldlM_curveSizes sizes hstart hneighbors hlength
  rw [← hsamples, List.getLast?_map] at hlast
  obtain ⟨⟨samples, e⟩, hpoint, hwhole⟩ := Option.map_eq_some_iff.mp hlast
  obtain rfl : samples = secret.size := hwhole
  have hestimate := hestimated _ (List.mem_of_getLast? hpoint)
  unfold IsEstimated at hestimate
  dsimp only at hestimate
  nth_rewrite 2 [hlength] at hestimate
  rw [Samples.take_size, Samples.take_size] at hestimate
  exact ⟨_, e, leakageCurve_eq_ok_iff.mpr
    ⟨hlength, start, hstart, List.ne_nil_of_mem hmem, _, hloop, rfl⟩, hpoint, hestimate⟩

/-- The estimate from all samples is reported below the curve. -/
theorem exists_reportMutualInformation {r : EstimateRequest} {steps : UInt64} {curve : LeakageCurve α} {e : α}
    (hcurve : r.curve = some steps) (hrequested : requestedCurve r p secret output steps = .ok curve)
    (hestimate : mutualInformation secret output p = .ok e) :
    ∃ unit : String, reportMutualInformation r p secret output =
      ⟨curveLines curve ++ [s!"Mutual information: {Scalar.text e} {unit}"], none⟩ := by
  have hlines : (requestedCurve r p secret output steps).map curveLines = .ok (curveLines curve) := by
    rw [hrequested]
    rfl
  cases hunits : p.units with
  | bits => exact ⟨"bits", by simp only [reportMutualInformation, hcurve, hlines, hestimate, hunits]⟩
  | nats => exact ⟨"nats", by simp only [reportMutualInformation, hcurve, hlines, hestimate, hunits]⟩

/-- Evenly spaced sizes ascend to the last one, and so a curve that is asked for on them ends in the estimate
from all samples, which is the figure that is reported after it. -/
theorem linearSizes_wholeEstimate :
    (∀ first n steps : UInt64,
      AscendTo first.toNat n.toNat (linearSizesWith Exact first.toNat n.toNat steps.toNat)) ∧
    ∀ (r : EstimateRequest) (p : EstimatorParams) (secret output : Samples Exact) (steps : UInt64)
      (deltas : List Exact), r.curve = some steps → p.validate = .ok () →
      secret.size < 2 ^ 64 → secret.size = output.size → p.sampleFloor.toNat ≤ secret.size →
      readDeltas r.deltas = .ok deltas → Convergence.AreDeltas deltas → r.window ≠ 0 →
      ∃ curve e, ∃ unit : String, requestedCurve r p secret output steps = .ok curve ∧
        curve.points.getLast? = some ⟨secret.size, e⟩ ∧ mutualInformation secret output p = .ok e ∧
        reportMutualInformation r p secret output =
          ⟨curveLines curve ++ [s!"Mutual information: {Scalar.text e} {unit}"], none⟩ := by
  constructor
  · intro first n steps
    exact ascendTo_linearSizes first.toNat steps.toNat n.toNat_lt
  · intro r p secret output steps deltas hcurve hvalid hsize hlength hfloor hread hdeltas hwindow
    have hneighbors : p.neighbors ≠ 0 := by
      intro hzero
      rw [EstimatorParams.validate, if_pos hzero] at hvalid
      cases hvalid
    have hwindow' : r.window.toNat ≠ 0 := by
      rwa [ne_eq, ← UInt64.toNat_zero, UInt64.toNat_inj]
    have hwhole : secret.size ∈ linearSizesWith Exact p.sampleFloor.toNat secret.size steps.toNat :=
      List.mem_of_getLast? (ascendTo_linearSizes p.sampleFloor.toNat steps.toNat hsize).last
    have hstart : Convergence.start deltas r.window.toNat (!r.isAbsolute) = .ok _ :=
      Convergence.start_eq_ok_iff.mpr ⟨hdeltas, hwindow', rfl⟩
    obtain ⟨curve, e, hdrawn, hlast, hestimate⟩ :=
      getLast?_leakageCurve hstart hneighbors hlength hfloor hwhole
    have hrequested : requestedCurve r p secret output steps = .ok curve := by
      unfold requestedCurve
      rw [hread]
      exact hdrawn
    obtain ⟨unit, hreport⟩ := exists_reportMutualInformation hcurve hrequested hestimate
    exact ⟨curve, e, unit, hrequested, hlast, hestimate, hreport⟩

private theorem readDeltas_one : readDeltas "1" = .ok [(1 : Exact)] := by
  have htrim : Text.trim "1".toList = "1".toList := by
    unfold Text.trim Text.isBlank
    simp only [Text.inRanges_eq]
    decide +kernel
  have hvalue : (Scalar.ofScientific 1 false 0 : Exact) = 1 := by
    rw [Exact.one_eq]
    change Exact.real _ = _
    simp
  have hread : Decimal.read? (String.ofList "1".toList) = some (1 : Exact) := congrArg some hvalue
  have hfields : splitCommas "1".toList = ["1".toList] := rfl
  unfold readDeltas
  rw [hfields, List.mapM_cons, List.mapM_nil, htrim, hread]
  rfl

private theorem linearSizes_six : linearSizesWith Exact 2 6 3 = [2, 4, 6] := by
  have hafter (i : ℕ) (hi : i < 2 ^ 63) : sizeAfter 2 6 3 i = 2 + 2 * i := by
    have hstride : (i : ℝ) * ((6 - 2 : ℕ) / (3 - 1 : ℕ)) = (2 * i : ℕ) := by
      push_cast
      ring
    unfold sizeAfter
    rw [hstride, toNat_round_natCast (by omega)]
  rw [linearSizesWith_exact (by decide) (by decide)]
  simp [List.range_succ, hafter]

/-- A curve in three steps on six throws of a coin and what they show. -/
theorem sixThrows_wholeEstimate :
    let r : EstimateRequest := ⟨.mutualInformation, "auto", 1, 1, false, 0, some 3, "1", 1, false, "throws"⟩
    let p : EstimatorParams := { neighbors := 1, minSamples := 1 }
    let throws : Samples Exact := ⟨.ofVector [0, 1, 1, 0, 1, 0], true⟩
    p.validate = .ok () ∧ throws.size < 2 ^ 64 ∧ p.sampleFloor.toNat ≤ throws.size ∧
      readDeltas r.deltas = .ok [(1 : Exact)] ∧ Convergence.AreDeltas [(1 : Exact)] ∧
      ∃ curve e, ∃ unit : String, requestedCurve r p throws throws 3 = .ok curve ∧
        curve.points.map CurvePoint.samples = [2, 4, 6] ∧
        curve.points.getLast? = some ⟨6, e⟩ ∧ mutualInformation throws throws p = .ok e ∧
        reportMutualInformation r p throws throws =
          ⟨curveLines curve ++ [s!"Mutual information: {Scalar.text e} {unit}"], none⟩ := by
  intro r p throws
  have hsize : throws.size < 2 ^ 64 := by decide
  have hfloor : p.sampleFloor.toNat ≤ throws.size := by decide
  obtain ⟨curve, e, unit, hcurve, hlast, hestimate, hreport⟩ :=
    linearSizes_wholeEstimate.2 r p throws throws 3 [1] rfl rfl hsize rfl hfloor readDeltas_one
      Convergence.areDeltas_one (by decide)
  have hsamples : curve.points.map CurvePoint.samples = [2, 4, 6] := by
    unfold requestedCurve at hcurve
    rw [readDeltas_one, Except.ok_bind] at hcurve
    refine (samples_of_leakageCurve hcurve).trans ?_
    change curveSizes (linearSizesWith Exact 2 6 3) 6 2 = _
    rw [linearSizes_six]
    have hsorted : ([2, 4, 6] : List ℕ).mergeSort = [2, 4, 6] := List.mergeSort_of_pairwise (by decide)
    exact (congrArg List.eraseDups hsorted).trans rfl
  exact ⟨rfl, hsize, hfloor, readDeltas_one, Convergence.areDeltas_one, curve, e, unit, hcurve, hsamples,
    hlast, hestimate, hreport⟩

end Curve

end InfoFlow
