import InfoFlow.Leakage.Convergence
import InfoFlow.Proofs.Information.Entropy
import InfoFlow.Proofs.Program.Except
import InfoFlow.Proofs.Scalar.Order

namespace InfoFlow

variable {α : Type} [Scalar α]

namespace EstimatorParams

/-- The smallest number of samples that the parameters ask for. -/
def leastSamples (p : EstimatorParams) : Nat := max p.minSamples.toNat (p.neighbors.toNat + 1)

/-- The sample floor does not wrap around if the count of neighbors leaves room for one more. -/
theorem toNat_sampleFloor {p : EstimatorParams} (h : p.neighbors.toNat + 1 < 2 ^ 64) :
    p.sampleFloor.toNat = p.leastSamples := by
  have hsucc : (p.neighbors + 1).toNat = p.neighbors.toNat + 1 := by
    rw [UInt64.toNat_add]
    exact Nat.mod_eq_of_lt h
  unfold sampleFloor leastSamples
  split
  · rename_i hle
    rw [UInt64.le_iff_toNat_le, hsucc] at hle
    rw [hsucc, max_eq_right hle]
  · rename_i hlt
    rw [UInt64.le_iff_toNat_le, hsucc] at hlt
    rw [max_eq_left (by omega)]

end EstimatorParams

section Sizes

omit [Scalar α] in
theorem Samples.size_take (s : Samples α) (n : Nat) : (s.take n).size = min n s.size := by
  simp [Samples.take, Samples.size, Matrix.take, Matrix.size]

theorem eraseDups_sublist {β : Type} [BEq β] (xs : List β) : xs.eraseDups.Sublist xs := by
  match xs with
  | [] => simp
  | x :: xs =>
    rw [List.eraseDups_cons]
    exact .cons_cons x ((eraseDups_sublist _).trans List.filter_sublist)
termination_by xs.length
decreasing_by exact Nat.lt_succ_of_le (List.length_filter_le _ _)

variable {sizes : List Nat} {n floor : Nat}

theorem mem_curveSizes {size : Nat} :
    size ∈ curveSizes sizes n floor ↔ floor ≤ size ∧ ∃ s ∈ sizes, min s n = size := by
  rw [curveSizes, List.mem_eraseDups, List.mem_mergeSort, List.mem_filter, List.mem_map,
    decide_eq_true_iff, and_comm]

theorem pairwise_curveSizes (sizes : List Nat) (n floor : Nat) :
    (curveSizes sizes n floor).Pairwise (· < ·) := by
  have hsorted : (((sizes.map fun s => Nat.min s n).filter (floor ≤ ·)).mergeSort).Pairwise
      (· ≤ ·) := by
    simpa using @List.pairwise_mergeSort Nat (fun a b => decide (a ≤ b))
      (by simpa using fun _ _ _ => Nat.le_trans) (by simpa using Nat.le_total) _
  exact (nodup_eraseDups _).imp₂ (fun _ _ hne hle => lt_of_le_of_ne hle hne)
    (hsorted.sublist (eraseDups_sublist _))

end Sizes

namespace Convergence

/-- Deltas that a curve can be judged by. -/
structure AreDeltas (deltas : List α) : Prop where
  ne_nil : deltas ≠ []
  pos {d : α} : d ∈ deltas → 0 < d
  isFinite {d : α} : d ∈ deltas → Scalar.isFinite d = true

/-- The numbers of one list, up to equality, in increasing order and each once. -/
structure IsSorting (xs sorted : List α) : Prop where
  increasing : sorted.Pairwise (· < ·)
  subset : sorted ⊆ xs
  exists_beq {x : α} : x ∈ xs → ∃ y ∈ sorted, (x == y) = true

theorem start_eq_ok_iff {deltas : List α} {window : Nat} {isRelative : Bool} {c : Convergence α} :
    start deltas window isRelative = .ok c ↔ AreDeltas deltas ∧ window ≠ 0 ∧
      c = ⟨withoutRepeats (deltas.mergeSort Scalar.totalLe), window, isRelative, []⟩ := by
  unfold start
  simp only [Except.ite_throw_bind_eq_ok_iff, Except.pure_eq_ok_iff, List.isEmpty_iff,
    List.any_eq_true, Bool.or_eq_true, Bool.not_eq_true', decide_eq_false_iff_not, not_exists,
    not_and, not_or, not_not, Bool.not_eq_false, eq_comm (a := c)]
  constructor
  · rintro ⟨hne, hall, hwindow, hc⟩
    exact ⟨⟨hne, fun h => (hall _ h).1, fun h => (hall _ h).2⟩, hwindow, hc⟩
  · rintro ⟨⟨hne, hpos, hfinite⟩, hwindow, hc⟩
    exact ⟨hne, fun d hd => ⟨hpos hd, hfinite hd⟩, hwindow, hc⟩

theorem areDeltas_one : AreDeltas [(1 : Exact)] := by
  refine ⟨by simp, fun hd => ?_, fun hd => ?_⟩ <;> rw [List.mem_singleton.mp hd]
  · exact Exact.zero_lt_iff.mpr (.inr ⟨1, Exact.one_eq, one_pos⟩)
  · exact Exact.isFinite_iff.mpr ⟨1, Exact.one_eq⟩

section Deltas

theorem withoutRepeats_sublist (xs : List α) : (withoutRepeats xs).Sublist xs := by
  fun_induction withoutRepeats xs with
  | case1 x y rest _ ih => exact ih.trans ((List.sublist_cons_self y rest).cons_cons x)
  | case2 x y rest _ ih => exact ih.cons_cons x
  | case3 xs => exact List.Sublist.refl xs

variable [LawfulOrder α]

theorem exists_mem_withoutRepeats {xs : List α} (hxs : ∀ x ∈ xs, Scalar.isNaN x = false) {x : α}
    (hx : x ∈ xs) : ∃ y ∈ withoutRepeats xs, (x == y) = true := by
  have hself {x : α} (h : Scalar.isNaN x = false) : (x == x) = true := by
    simpa [Scalar.isNaN] using h
  fun_induction withoutRepeats xs generalizing x with
  | case1 first second rest hrepeat ih =>
    have hrest : ∀ x ∈ first :: rest, Scalar.isNaN x = false := fun x hmem => hxs x (by grind)
    rcases List.mem_cons.mp hx with rfl | hmem
    · exact ih hrest List.mem_cons_self
    · rcases List.mem_cons.mp hmem with rfl | hmem
      · obtain ⟨y, hy, heq⟩ := ih hrest List.mem_cons_self
        exact ⟨y, hy, Scalar.beq_trans ((Scalar.beq_comm _ _).trans hrepeat) heq⟩
      · exact ih hrest (List.mem_cons_of_mem _ hmem)
  | case2 first second rest _ ih =>
    rcases List.mem_cons.mp hx with rfl | hmem
    · exact ⟨x, List.mem_cons_self, hself (hxs x List.mem_cons_self)⟩
    · obtain ⟨y, hy, heq⟩ := ih (fun x hmem => hxs x (List.mem_cons_of_mem _ hmem)) hmem
      exact ⟨y, List.mem_cons_of_mem _ hy, heq⟩
  | case3 xs => exact ⟨x, hx, hself (hxs x hx)⟩

/-- In increasing order, a number that repeats an earlier one repeats the one before it. -/
theorem pairwise_withoutRepeats {xs : List α} (hsorted : xs.Pairwise (· ≤ ·)) :
    (withoutRepeats xs).Pairwise (· < ·) := by
  fun_induction withoutRepeats xs with
  | case1 x y rest _ ih => exact ih (hsorted.sublist ((List.sublist_cons_self y rest).cons_cons x))
  | case2 x y rest hne ih =>
    obtain ⟨hx, htail⟩ := List.pairwise_cons.mp hsorted
    have hlt : x < y := LawfulOrder.lt_iff_le_not_le.mpr ⟨hx y List.mem_cons_self, fun hle =>
      hne (LawfulOrder.beq_iff_le_le.mpr ⟨hx y List.mem_cons_self, hle⟩)⟩
    refine List.pairwise_cons.mpr ⟨fun z hz => ?_, ih htail⟩
    rcases List.mem_cons.mp ((withoutRepeats_sublist _).subset hz) with rfl | hz
    · exact hlt
    · exact Scalar.lt_of_lt_of_le hlt ((List.pairwise_cons.mp htail).1 z hz)
  | case3 xs hshort =>
    match xs with
    | [] => exact .nil
    | [x] => exact List.pairwise_singleton _ x
    | x :: y :: rest => exact absurd rfl (hshort x y rest)

theorem isSorting_sortedDeltas {deltas : List α} (h : AreDeltas deltas) :
    IsSorting deltas (withoutRepeats (deltas.mergeSort Scalar.totalLe)) := by
  have hnumber : ∀ d ∈ deltas.mergeSort Scalar.totalLe, Scalar.isNaN d = false := fun d hd =>
    (Scalar.isFinite_iff.mp (h.isFinite (List.mem_mergeSort.mp hd))).1
  have hsorted : (deltas.mergeSort Scalar.totalLe).Pairwise (· ≤ ·) :=
    Scalar.pairwise_mergeSort_totalLe id fun d hd => hnumber d (List.mem_mergeSort.mpr hd)
  constructor
  case increasing => exact pairwise_withoutRepeats hsorted
  case subset =>
    exact fun d hd => List.mem_mergeSort.mp ((withoutRepeats_sublist _).subset hd)
  case exists_beq =>
    exact fun hd => exists_mem_withoutRepeats hnumber (List.mem_mergeSort.mpr hd)

end Deltas

section Push

omit [Scalar α]

theorem push_eq_ok_iff {c c' : Convergence α} {p : CurvePoint α} :
    c.push p = .ok c' ↔ (∀ last ∈ c.points.getLast?, last.samples < p.samples) ∧
      c' = { c with points := c.points ++ [p] } := by
  unfold push
  cases hlast : c.points.getLast? with
  | none =>
    obtain hnil := List.getLast?_eq_none_iff.mp hlast
    simp [hnil, eq_comm]
  | some last =>
    by_cases hle : p.samples ≤ last.samples
    · simp [hle]
    · simp [hle, eq_comm, Nat.lt_of_not_le hle]

/-- A point with more samples than all before it is added. -/
theorem push_of_lt {c : Convergence α} {p : CurvePoint α}
    (h : ∀ q ∈ c.points, q.samples < p.samples) :
    c.push p = .ok { c with points := c.points ++ [p] } :=
  push_eq_ok_iff.mpr ⟨fun _ hlast => h _ (List.mem_of_getLast? hlast), rfl⟩

end Push

end Convergence

section Loop

variable {secret output : Samples α} {p : EstimatorParams}

theorem checkSizes_eq (secret output : Nat) (p : EstimatorParams) :
    checkSizes secret output p =
      if secret ≠ output then .error (.lengthMismatch secret output)
      else if secret < p.sampleFloor.toNat then
        .error (.insufficientSamples secret p.sampleFloor.toNat)
      else .ok () := by
  unfold checkSizes
  dsimp only
  split_ifs <;> rfl

/-- An estimate is refused for want of neighbors, for sides that are not aligned, and for want of
samples, in this order. -/
theorem mutualInformation_eq (secret output : Samples α) (p : EstimatorParams) :
    mutualInformation secret output p =
      if p.neighbors = 0 then .error (.invalidParams .noNeighbors)
      else if secret.size ≠ output.size then .error (.lengthMismatch secret.size output.size)
      else if secret.size < p.sampleFloor.toNat then
        .error (.insufficientSamples secret.size p.sampleFloor.toNat)
      else .ok (estimate secret output p).1 := by
  unfold mutualInformation EstimatorParams.validate
  rw [checkSizes_eq]
  split_ifs <;> rfl

/-- A point has the estimate from as many samples as it says. -/
def IsEstimated (secret output : Samples α) (p : EstimatorParams) (point : CurvePoint α) : Prop :=
  mutualInformation (secret.take point.samples) (output.take point.samples) p = .ok point.estimate

/-- One more size adds one point, if its estimate is not refused and the curve grows. -/
theorem extendCurve_of_lt {c : Convergence α} {size : Nat} (hneighbors : p.neighbors ≠ 0)
    (hlength : secret.size = output.size) (hfloor : p.sampleFloor.toNat ≤ size)
    (hsize : size ≤ secret.size) (hgrows : ∀ q ∈ c.points, q.samples < size) :
    ∃ point, extendCurve secret output p c size = .ok { c with points := c.points ++ [point] } ∧
      point.samples = size ∧ IsEstimated secret output p point := by
  have hestimate : mutualInformation (secret.take size) (output.take size) p =
      .ok (estimate (secret.take size) (output.take size) p).1 := by
    rw [mutualInformation_eq, if_neg hneighbors, Samples.size_take, Samples.size_take, ← hlength,
      min_eq_left hsize, if_neg (not_not.mpr rfl), if_neg (Nat.not_lt.mpr hfloor)]
  exact ⟨⟨size, _⟩, Except.bind_eq_ok_iff.mpr ⟨_, hestimate, Convergence.push_of_lt hgrows⟩, rfl,
    hestimate⟩

/-- A run over increasing sizes adds a point for each of them. -/
theorem foldlM_extendCurve {sizes : List Nat} {c : Convergence α} (hneighbors : p.neighbors ≠ 0)
    (hlength : secret.size = output.size)
    (hsizes : ∀ size ∈ sizes, p.sampleFloor.toNat ≤ size ∧ size ≤ secret.size)
    (hincreasing : sizes.Pairwise (· < ·))
    (hgrows : ∀ q ∈ c.points, ∀ size ∈ sizes, q.samples < size) :
    ∃ points, sizes.foldlM (extendCurve secret output p) c =
        .ok { c with points := c.points ++ points } ∧
      points.map CurvePoint.samples = sizes ∧
      ∀ point ∈ points, IsEstimated secret output p point := by
  induction sizes generalizing c with
  | nil => exact ⟨[], by simp [pure, Except.pure], rfl, by simp⟩
  | cons size sizes ih =>
    obtain ⟨hfirst, hrest⟩ := List.pairwise_cons.mp hincreasing
    obtain ⟨hfloor, hsize⟩ := hsizes size List.mem_cons_self
    obtain ⟨point, hpoint, hsamples, hestimated⟩ := extendCurve_of_lt hneighbors hlength hfloor hsize
      fun q hq => hgrows q hq size List.mem_cons_self
    obtain ⟨points, hpoints, hmap, hall⟩ := ih (c := { c with points := c.points ++ [point] })
      (fun s hs => hsizes s (List.mem_cons_of_mem _ hs)) hrest (by
        intro q hq s hs
        rcases List.mem_append.mp hq with hq | hq
        · exact hgrows q hq s (List.mem_cons_of_mem _ hs)
        · rw [List.mem_singleton.mp hq, hsamples]
          exact hfirst s hs)
    refine ⟨point :: points, ?_, by rw [List.map_cons, hsamples, hmap], ?_⟩
    · rw [List.append_assoc] at hpoints
      rw [List.foldlM_cons]
      exact Except.bind_eq_ok_iff.mpr ⟨_, hpoint, hpoints⟩
    · exact List.forall_mem_cons.mpr ⟨hestimated, hall⟩

end Loop

/-- What it takes for a curve to be drawn. -/
structure CanDraw (secret output : Samples α) (p : EstimatorParams) (sizes : List Nat)
    (deltas : List α) (window : Nat) : Prop where
  size_eq : secret.size = output.size
  deltas : Convergence.AreDeltas deltas
  one_le_window : 1 ≤ window
  one_le_neighbors : 1 ≤ p.neighbors.toNat
  exists_size : ∃ s ∈ sizes, p.leastSamples ≤ min s secret.size

/-- A curve has the estimate for each size that is evaluated, and says where they converged. -/
structure LeakageCurve.Draws (curve : LeakageCurve α) (secret output : Samples α)
    (p : EstimatorParams) (sizes : List Nat) (deltas : List α) (window : Nat) (isRelative : Bool) :
    Prop where
  increasing : (curve.points.map CurvePoint.samples).Pairwise (· < ·)
  mem_samples {size : Nat} : size ∈ curve.points.map CurvePoint.samples ↔
    p.leastSamples ≤ size ∧ ∃ s ∈ sizes, min s secret.size = size
  estimated {point : CurvePoint α} : point ∈ curve.points → mutualInformation
    (secret.take point.samples) (output.take point.samples) p = .ok point.estimate
  /-- Each point is added to those before it, and the whole curve is summarized. -/
  judged : ∃ sorted, Convergence.IsSorting deltas sorted ∧
    (∀ before point after, curve.points = before ++ point :: after →
      Convergence.push ⟨sorted, window, isRelative, before⟩ point =
        .ok ⟨sorted, window, isRelative, before ++ [point]⟩) ∧
    curve.converged = Convergence.summary ⟨sorted, window, isRelative, curve.points⟩

section Curve

variable {secret output : Samples α} {p : EstimatorParams} {sizes : List Nat} {deltas : List α}
  {window : Nat} {isRelative : Bool}

/-- A curve is drawn from the checks that have to pass and a run over the sizes. -/
theorem leakageCurve_eq_ok_iff {curve : LeakageCurve α} :
    leakageCurve secret output p sizes deltas window isRelative = .ok curve ↔
      secret.size = output.size ∧ ∃ start, Convergence.start deltas window isRelative = .ok start ∧
        curveSizes sizes secret.size p.sampleFloor.toNat ≠ [] ∧ ∃ c,
          (curveSizes sizes secret.size p.sampleFloor.toNat).foldlM (extendCurve secret output p)
            start = .ok c ∧ ⟨c.points, c.summary⟩ = curve := by
  unfold leakageCurve
  simp only [Except.ite_throw_bind_eq_ok_iff, Except.bind_eq_ok_iff, Except.pure_eq_ok_iff,
    not_not, List.isEmpty_iff]

/-- A run that adds a point has been given a neighbor. -/
theorem neighbors_ne_zero_of_foldlM {sizes : List Nat} {c c' : Convergence α} (hne : sizes ≠ [])
    (h : sizes.foldlM (extendCurve secret output p) c = .ok c') : p.neighbors ≠ 0 := by
  obtain ⟨size, sizes, rfl⟩ := List.exists_cons_of_ne_nil hne
  rw [List.foldlM_cons, Except.bind_eq_ok_iff] at h
  obtain ⟨_, hstep, _⟩ := h
  obtain ⟨_, hestimate, _⟩ := Except.bind_eq_ok_iff.mp hstep
  intro hzero
  rw [mutualInformation_eq, if_pos hzero] at hestimate
  cases hestimate

/-- The run over the sizes that are evaluated ends, with a point for each of them. -/
theorem foldlM_curveSizes (sizes : List Nat) {start : Convergence α}
    (hstart : Convergence.start deltas window isRelative = .ok start) (hneighbors : p.neighbors ≠ 0)
    (hlength : secret.size = output.size) :
    ∃ points, (curveSizes sizes secret.size p.sampleFloor.toNat).foldlM
        (extendCurve secret output p) start = .ok { start with points := points } ∧
      points.map CurvePoint.samples = curveSizes sizes secret.size p.sampleFloor.toNat ∧
      ∀ point ∈ points, IsEstimated secret output p point := by
  obtain ⟨_, _, rfl⟩ := Convergence.start_eq_ok_iff.mp hstart
  refine foldlM_extendCurve hneighbors hlength (fun size hsize => ?_)
    (pairwise_curveSizes sizes secret.size p.sampleFloor.toNat) (by simp)
  obtain ⟨hle, s, _, rfl⟩ := mem_curveSizes.mp hsize
  exact ⟨hle, min_le_right s secret.size⟩

/-- A curve has a point for each size that is evaluated. -/
theorem samples_of_leakageCurve {curve : LeakageCurve α}
    (h : leakageCurve secret output p sizes deltas window isRelative = .ok curve) :
    curve.points.map CurvePoint.samples = curveSizes sizes secret.size p.sampleFloor.toNat := by
  obtain ⟨hlength, start, hstart, hne, c, hloop, rfl⟩ := leakageCurve_eq_ok_iff.mp h
  obtain ⟨points, hpoints, hsamples, _⟩ :=
    foldlM_curveSizes sizes hstart (neighbors_ne_zero_of_foldlM hne hloop) hlength
  obtain rfl := Except.ok.inj (hloop.symm.trans hpoints)
  exact hsamples

theorem exists_leakageCurve_iff (hroom : p.neighbors.toNat + 1 < 2 ^ 64) :
    (∃ curve, leakageCurve secret output p sizes deltas window isRelative = .ok curve) ↔
      CanDraw secret output p sizes deltas window := by
  have hneighbors : p.neighbors ≠ 0 ↔ 1 ≤ p.neighbors.toNat := by
    rw [Nat.one_le_iff_ne_zero, ne_eq, ne_eq, ← UInt64.toNat_inj]
    rfl
  have hsizes : curveSizes sizes secret.size p.sampleFloor.toNat ≠ [] ↔
      ∃ s ∈ sizes, p.leastSamples ≤ min s secret.size := by
    rw [EstimatorParams.toNat_sampleFloor hroom]
    constructor
    · intro hne
      obtain ⟨size, hsize⟩ := List.exists_mem_of_ne_nil _ hne
      obtain ⟨hle, s, hs, rfl⟩ := mem_curveSizes.mp hsize
      exact ⟨s, hs, hle⟩
    · rintro ⟨s, hs, hle⟩
      exact List.ne_nil_of_mem (mem_curveSizes.mpr ⟨hle, s, hs, rfl⟩)
  constructor
  · rintro ⟨curve, h⟩
    obtain ⟨hlength, start, hstart, hne, c, hloop, _⟩ := leakageCurve_eq_ok_iff.mp h
    obtain ⟨hdeltas, hwindow, _⟩ := Convergence.start_eq_ok_iff.mp hstart
    exact ⟨hlength, hdeltas, Nat.one_le_iff_ne_zero.mpr hwindow,
      hneighbors.mp (neighbors_ne_zero_of_foldlM hne hloop), hsizes.mp hne⟩
  · rintro ⟨hlength, hdeltas, hwindow, hone, hexists⟩
    have hstart : Convergence.start deltas window isRelative = .ok _ :=
      Convergence.start_eq_ok_iff.mpr ⟨hdeltas, Nat.one_le_iff_ne_zero.mp hwindow, rfl⟩
    obtain ⟨points, hpoints, _⟩ := foldlM_curveSizes sizes hstart (hneighbors.mpr hone) hlength
    exact ⟨_, leakageCurve_eq_ok_iff.mpr ⟨hlength, _, hstart, hsizes.mpr hexists, _, hpoints, rfl⟩⟩

theorem draws_of_leakageCurve [LawfulOrder α] (hroom : p.neighbors.toNat + 1 < 2 ^ 64)
    {curve : LeakageCurve α}
    (h : leakageCurve secret output p sizes deltas window isRelative = .ok curve) :
    curve.Draws secret output p sizes deltas window isRelative := by
  obtain ⟨hlength, start, hstart, hne, c, hloop, rfl⟩ := leakageCurve_eq_ok_iff.mp h
  obtain ⟨points, hpoints, hsamples, hestimated⟩ :=
    foldlM_curveSizes sizes hstart (neighbors_ne_zero_of_foldlM hne hloop) hlength
  obtain ⟨hdeltas, _, rfl⟩ := Convergence.start_eq_ok_iff.mp hstart
  obtain rfl := Except.ok.inj (hloop.symm.trans hpoints)
  have hincreasing := pairwise_curveSizes sizes secret.size p.sampleFloor.toNat
  rw [← hsamples] at hincreasing
  constructor
  case increasing => exact hincreasing
  case mem_samples =>
    intro size
    rw [← EstimatorParams.toNat_sampleFloor hroom, ← mem_curveSizes, ← hsamples]
  case estimated => exact fun hpoint => hestimated _ hpoint
  case judged =>
    refine ⟨_, Convergence.isSorting_sortedDeltas hdeltas, fun before point after heq => ?_, rfl⟩
    refine Convergence.push_of_lt fun q hq => ?_
    change points = before ++ point :: after at heq
    rw [heq, List.pairwise_map] at hincreasing
    exact (List.pairwise_append.mp hincreasing).2.2 q hq point List.mem_cons_self

/-- A curve is drawn exactly when sides, deltas, window, neighbors and sizes allow it, and then it is the
curve of the sizes that reach the floor. -/
theorem leakageCurve_spec [LawfulOrder α] (secret output : Samples α) (p : EstimatorParams)
    (hroom : p.neighbors.toNat + 1 < 2 ^ 64) (sizes : List Nat) (deltas : List α) (window : Nat)
    (isRelative : Bool) :
    ((∃ curve, leakageCurve secret output p sizes deltas window isRelative = .ok curve) ↔
      CanDraw secret output p sizes deltas window) ∧
    ∀ curve, leakageCurve secret output p sizes deltas window isRelative = .ok curve →
      curve.Draws secret output p sizes deltas window isRelative :=
  ⟨exists_leakageCurve_iff hroom, fun _ => draws_of_leakageCurve hroom⟩

/-- Two throws of a coin and what they show, at three sizes of which one is too small and one too large:
the curve has the point of both samples. -/
theorem twoThrows_draws : (1 : UInt64).toNat + 1 < 2 ^ 64 ∧ ∃ curve : LeakageCurve Exact,
    leakageCurve ⟨.ofVector [0, 1], true⟩ ⟨.ofVector [0, 1], true⟩
      { neighbors := 1, minSamples := 1 } [9, 2, 1] [1] 1 false = .ok curve ∧
    curve.Draws ⟨.ofVector [0, 1], true⟩ ⟨.ofVector [0, 1], true⟩
      { neighbors := 1, minSamples := 1 } [9, 2, 1] [1] 1 false := by
  have hspec := leakageCurve_spec (α := Exact) ⟨.ofVector [0, 1], true⟩ ⟨.ofVector [0, 1], true⟩
    { neighbors := 1, minSamples := 1 } (by decide) [9, 2, 1] [1] 1 false
  obtain ⟨curve, h⟩ := hspec.1.mpr
    ⟨rfl, Convergence.areDeltas_one, le_rfl, le_rfl, 2, by simp, by decide⟩
  exact ⟨by decide, curve, h, hspec.2 curve h⟩

end Curve

end InfoFlow
