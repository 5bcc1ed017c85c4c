import InfoFlow.Information.Samples
import InfoFlow.Proofs.Information.GroupTables
import InfoFlow.Proofs.Information.Preparation
import InfoFlow.Proofs.Information.Processing
import InfoFlow.Proofs.Leakage.Curve
import InfoFlow.Proofs.Scalar.Sizes

namespace InfoFlow

variable {α : Type} [Scalar α]

/-- Of aligned sides, the continuous one of a mixed estimate is prepared to as many rows as the other has
labels. -/
theorem size_mixedSides {σ : Type} [RandomWords σ] {secret output : Samples α}
    (halign : secret.size = output.size) (noise : σ) :
    ((prepare (mixedSides secret output).1.values).run noise).1.size = secret.size ∧
      (mixedSides secret output).2.ids.length = secret.size := by
  have hsides : (mixedSides secret output).1.size = secret.size ∧
      (mixedSides secret output).2.size = secret.size := by
    unfold mixedSides
    split
    · exact ⟨rfl, halign.symm⟩
    · exact ⟨halign.symm, rfl⟩
  exact ⟨(prepare_size _ noise).trans hsides.1, (Samples.length_ids _).trans hsides.2⟩

namespace Guarded

/-- The digamma function at an integer from 1 on. -/
def digamma (x : α) : Except EstimateFault α :=
  if Scalar.isSize x then .ok (Special.digamma x) else .error .pole

section Kraskov

/-- What sample `i` adds to the mean for two continuous sides. -/
def kraskovTerm (joint x y : PointSet α) (k i : Nat) : Except EstimateFault α := do
  let eps ← kthNeighborDistance joint i k
  let nx ← countWithin x i eps
  let ny ← countWithin y i eps
  return (← digamma (Scalar.ofNat nx + 1)) + (← digamma (Scalar.ofNat ny + 1))

def kraskov (x y : Matrix α) (k : Nat) : Except EstimateFault α :=
  match x.beside? y with
  | none => return 0
  | some joint => do
    let joint ← pointSet joint
    let xs ← pointSet x
    let ys ← pointSet y
    let terms ← (List.range x.size).mapM (kraskovTerm joint xs ys k)
    let n : α := Scalar.ofNat x.size
    return (← digamma n) + (← digamma (Scalar.ofNat k)) - Scalar.sum terms / n

end Kraskov

section Ross

variable {β : Type} [BEq β]

/-- The samples whose label occurs more than once, in order, by the groups of the samples. -/
def sharedRows (groups : List (β × List Nat)) (labels : List β) :
    Except EstimateFault (List Nat) := do
  let sizes ← (List.range labels.length).mapM fun i => do
    return (i, (← groupAt groups (← entry labels[i]?)).length)
  return (sizes.filter fun (_, size) => 1 < size).map Prod.fst

/-- What the sample at a position among the kept ones adds to the mean. -/
def rossTerm (set : PointSet α) (t : Tables α) (groups : List (β × List Nat)) (labels : List β)
    (kept : List Nat) (position : Nat) : Except EstimateFault α := do
  let i ← entry kept[position]?
  let m := (← countWithin set position (← entry t.radius[i]?)) + 1
  let neighbors ← entry t.neighbors[i]?
  let size := (← groupAt groups (← entry labels[i]?)).length
  return (← digamma (Scalar.ofNat neighbors)) - (← digamma (Scalar.ofNat size)) -
    (← digamma (Scalar.ofNat m))

def ross (c : Matrix α) (labels : List β) (k : Nat) : Except EstimateFault α := do
  let groups := groupsOf labels
  let t ← Tables.recordGroups c k groups labels.length
  let kept ← sharedRows groups labels
  if kept.isEmpty then return 0
  else
    let set ← pointSet (← select c kept)
    let terms ← (List.range kept.length).mapM (rossTerm set t groups labels kept)
    let n : α := Scalar.ofNat kept.length
    return (← digamma n) + Scalar.sum terms / n

end Ross

/-- Estimate of a resolved estimator, in nats. -/
def estimateNats {σ : Type} [RandomWords σ] (estimator : Estimator) (k : Nat)
    (secret output : Samples α) : ExceptT EstimateFault (Random σ) α :=
  match estimator with
  | .discrete => return plugIn secret.ids output.ids
  | .continuous => do
    let x ← prepare secret.values
    let y ← prepare output.values
    kraskov x y k
  | .mixed | .auto => do
    let (continuous, labels) := mixedSides secret output
    let c ← prepare continuous.values
    ross c labels.ids k

/-- Estimate of the mutual information with sizes that have been checked. -/
def estimate (secret output : Samples α) (p : EstimatorParams) : Except EstimateFault α :=
  if secret.values.isConstant || output.values.isConstant then return 0
  else do
    let estimator := p.estimator.resolve secret.isDiscrete output.isDiscrete
    let computation : ExceptT EstimateFault (Random Xoshiro) α :=
      estimateNats estimator p.neighbors.toNat secret output
    let nats ← (computation.run.run (Xoshiro.ofSeed p.seed)).1
    return p.units.ofNats (Scalar.max nats 0)

section Sizes

variable [LawfulSizes α] {n : Nat}

theorem digamma_ofNat (hpos : 1 ≤ n) (hn : n ≤ 2 ^ 64) :
    digamma (Scalar.ofNat n : α) = .ok (Special.digamma (Scalar.ofNat n)) :=
  if_pos (LawfulSizes.isSize_ofNat hpos hn)

theorem digamma_ofNat_add_one (hn : n ≤ 2 ^ 64) :
    digamma (Scalar.ofNat n + 1 : α) = .ok (Special.digamma (Scalar.ofNat n + 1)) :=
  if_pos (LawfulSizes.isSize_ofNat_add_one hn)

end Sizes

variable [LawfulSizes α]

theorem kraskovTerm_eq {joint x y : Matrix α} {k i : Nat} (hx : x.size = joint.size)
    (hy : y.size = joint.size) (hsize : joint.size ≤ 2 ^ 64) (hi : i < joint.size) :
    kraskovTerm (.ofMatrix joint) (.ofMatrix x) (.ofMatrix y) k i =
      .ok (InfoFlow.kraskovTerm Special.digamma (.ofMatrix joint) (.ofMatrix x) (.ofMatrix y) k i) := by
  have hix : i < x.size := hi.trans_eq hx.symm
  have hiy : i < y.size := hi.trans_eq hy.symm
  have hnx := PointSet.countWithin_ofMatrix_lt hix ((PointSet.ofMatrix joint).kthNeighborDistance i k)
  have hny := PointSet.countWithin_ofMatrix_lt hiy ((PointSet.ofMatrix joint).kthNeighborDistance i k)
  unfold kraskovTerm
  rw [kthNeighborDistance_eq_ok hi, Except.ok_bind, countWithin_eq_ok hix, Except.ok_bind,
    countWithin_eq_ok hiy, Except.ok_bind, digamma_ofNat_add_one (by omega), Except.ok_bind,
    digamma_ofNat_add_one (by omega), Except.ok_bind]
  rfl

theorem kraskov_eq {x y : Matrix α} {k : Nat} (hpos : 1 ≤ x.size) (hsize : x.size ≤ 2 ^ 64)
    (hk : 1 ≤ k) (hlimit : k ≤ 2 ^ 64) : kraskov x y k = .ok (InfoFlow.kraskov x y k) := by
  unfold kraskov InfoFlow.kraskov kraskovWith
  cases hjoint : x.beside? y with
  | none => rfl
  | some joint =>
    obtain ⟨hx, hy⟩ := Matrix.IsPartOf.of_beside? hjoint
    have hterms : (List.range x.size).mapM (kraskovTerm (.ofMatrix joint) (.ofMatrix x) (.ofMatrix y) k) =
        .ok ((List.range x.size).map
          (InfoFlow.kraskovTerm Special.digamma (.ofMatrix joint) (.ofMatrix x) (.ofMatrix y) k)) := by
      apply Except.mapM_eq_ok_map
      intro i hi
      exact kraskovTerm_eq hx.size_eq hy.size_eq (hx.size_eq.symm.trans_le hsize)
        ((List.mem_range.mp hi).trans_eq hx.size_eq)
    dsimp only
    rw [pointSet_eq, Except.ok_bind, pointSet_eq, Except.ok_bind, pointSet_eq, Except.ok_bind, hterms,
      Except.ok_bind, digamma_ofNat hpos hsize, Except.ok_bind, digamma_ofNat hk hlimit, Except.ok_bind]
    rfl

section Ross

variable {β : Type} [BEq β] [LawfulBEq β] {c : Matrix α} {labels : List β} {k : Nat}

omit [Scalar α] [LawfulSizes α] in
theorem sharedRows_eq : sharedRows (groupsOf labels) labels = .ok (InfoFlow.sharedRows labels) := by
  have hsizes : (List.range labels.length).mapM (fun i => do
      return (i, (← groupAt (groupsOf labels) (← entry labels[i]?)).length)) =
        .ok ((List.range labels.length).map fun i => (i, (groupOf labels i).length)) := by
    apply Except.mapM_eq_ok_map
    intro i hi
    have hgroup := groupAt_label_eq (List.mem_range.mp hi)
    obtain ⟨label, hlabel, hgroup⟩ := Except.bind_eq_ok_iff.mp hgroup
    rw [hlabel, Except.ok_bind, hgroup]
    rfl
  unfold sharedRows
  rw [hsizes, Except.ok_bind, List.filter_map, List.map_map]
  apply congrArg Except.ok
  exact List.map_id _

/-- What a kept sample adds to the mean is computed from what its own group says of it. -/
theorem rossTerm_eq (hlength : labels.length = c.size) (hsize : c.size ≤ 2 ^ 64) (hk : 1 ≤ k)
    (hlimit : k ≤ 2 ^ 64) {t : Tables α} (ht : ∀ i ∈ InfoFlow.sharedRows labels,
      entry t.radius[i]? = .ok (groupedSampleOf c labels k i).radius ∧
        entry t.neighbors[i]? = .ok (groupedSampleOf c labels k i).neighbors)
    {position : Nat} (hposition : position < (InfoFlow.sharedRows labels).length) :
    rossTerm (.ofMatrix (c.select (InfoFlow.sharedRows labels))) t (groupsOf labels) labels
      (InfoFlow.sharedRows labels) position =
        .ok (InfoFlow.rossTerm c labels k position (InfoFlow.sharedRows labels)[position]) := by
  have hmem : (InfoFlow.sharedRows labels)[position] ∈ InfoFlow.sharedRows labels :=
    List.getElem_mem hposition
  have hselected : (c.select (InfoFlow.sharedRows labels)).size = (InfoFlow.sharedRows labels).length :=
    size_select_sharedRows hlength
  have hplace : position < (c.select (InfoFlow.sharedRows labels)).size :=
    hposition.trans_eq hselected.symm
  have hkept : (InfoFlow.sharedRows labels).length ≤ labels.length := length_sharedRows_le
  obtain ⟨hradius, hneighbors⟩ := ht _ hmem
  obtain ⟨hfew, hneighborsLe, hmany, hgroupLe⟩ := groupedSampleOf_bounds c k hk hmem
  set s := groupedSampleOf c labels k (InfoFlow.sharedRows labels)[position]
  have hcount := PointSet.countWithin_ofMatrix_lt hplace s.radius
  obtain ⟨label, hlabel, hgroup⟩ := Except.bind_eq_ok_iff.mp
    (groupAt_label_eq (lt_length_of_mem_sharedRows hmem))
  have hgroupSize : (groupOf labels (InfoFlow.sharedRows labels)[position]).length = s.groupSize := rfl
  unfold rossTerm
  rw [List.getElem?_eq_getElem hposition]
  dsimp only [entry] at hradius hneighbors hlabel ⊢
  rw [Except.ok_bind, hradius, Except.ok_bind, countWithin_eq_ok hplace, Except.ok_bind, hneighbors,
    Except.ok_bind, hlabel, Except.ok_bind, hgroup, Except.ok_bind, hgroupSize,
    digamma_ofNat hfew (by omega), digamma_ofNat (by omega) (by omega),
    digamma_ofNat (by omega) (by omega)]
  rfl

theorem ross_eq (hlength : labels.length = c.size) (hsize : c.size ≤ 2 ^ 64) (hk : 1 ≤ k)
    (hlimit : k ≤ 2 ^ 64) : ross c labels k = .ok (InfoFlow.ross c labels k) := by
  obtain ⟨t, htables, ht⟩ := Tables.exists_recordGroups hlength k
  have hrows (i : Nat) (hi : i ∈ InfoFlow.sharedRows labels) : i < c.size :=
    lt_size_of_mem_sharedRows hlength hi
  have hkept : (InfoFlow.sharedRows labels).length ≤ c.size := hlength ▸ length_sharedRows_le
  unfold ross
  dsimp only
  rw [htables, Except.ok_bind, sharedRows_eq, Except.ok_bind, ross_eq_rossTerms]
  by_cases hempty : (InfoFlow.sharedRows labels).isEmpty = true
  · rw [if_pos hempty, if_pos hempty]
    rfl
  · have hpos : 1 ≤ (InfoFlow.sharedRows labels).length :=
      List.length_pos_iff.mpr (by simpa using hempty)
    have hterms : (List.range (InfoFlow.sharedRows labels).length).mapM (rossTerm
        (.ofMatrix (c.select (InfoFlow.sharedRows labels))) t (groupsOf labels) labels
        (InfoFlow.sharedRows labels)) = .ok (rossTerms c labels k) := by
      have hlengthTerms : (rossTerms c labels k).length = (InfoFlow.sharedRows labels).length := by
        simp [rossTerms]
      rw [← hlengthTerms]
      apply Except.mapM_range_eq_ok
      intro position hposition
      rw [rossTerm_eq hlength hsize hk hlimit ht (hposition.trans_eq hlengthTerms)]
      simp [rossTerms]
    rw [if_neg hempty, if_neg hempty, select_eq hrows, Except.ok_bind, pointSet_eq, Except.ok_bind,
      hterms, Except.ok_bind, digamma_ofNat hpos (hkept.trans hsize)]
    rfl

end Ross

section Estimate

variable {σ : Type} [RandomWords σ] {secret output : Samples α} {k : Nat}

omit [Scalar α] [LawfulSizes α] [RandomWords σ] in
theorem run_lift_bind {β γ ε : Type} (x : Random σ β) (f : β → ExceptT ε (Random σ) γ) (noise : σ) :
    ((ExceptT.lift x >>= f).run.run noise) = ((f (x.run noise).1).run.run (x.run noise).2) := rfl

/-- Whatever the estimator and the noise, no estimate of aligned samples breaks off. -/
theorem estimateNats_eq (estimator : Estimator) (noise : σ) (halign : secret.size = output.size)
    (hpos : 1 ≤ secret.size) (hsize : secret.size ≤ 2 ^ 64) (hk : 1 ≤ k) (hlimit : k ≤ 2 ^ 64) :
    ((estimateNats estimator k secret output).run.run noise).1 =
      .ok (estimateNatsFrom noise estimator k secret output) := by
  have hmixed : ((estimateNats .mixed k secret output).run.run noise).1 =
      .ok (estimateNatsFrom noise .mixed k secret output) := by
    obtain ⟨hrows, hlabels⟩ := size_mixedSides halign noise
    have hrun := ross_eq (hlabels.trans hrows.symm) (hrows.trans_le hsize) hk hlimit
    unfold estimateNats estimateNatsFrom
    dsimp only
    rw [prepare_eq, run_lift_bind]
    exact hrun
  cases estimator with
  | discrete => rfl
  | continuous =>
    have hrows : ((InfoFlow.prepare secret.values).run noise).1.size = secret.size :=
      prepare_size secret.values noise
    have hrun := kraskov_eq (y := ((InfoFlow.prepare output.values).run
      ((InfoFlow.prepare secret.values).run noise).2).1) (hpos.trans_eq hrows.symm)
      (hrows.trans_le hsize) hk hlimit
    unfold estimateNats estimateNatsFrom
    dsimp only
    rw [prepare_eq, prepare_eq, run_lift_bind, run_lift_bind]
    exact hrun
  | mixed => exact hmixed
  | auto => exact hmixed

/-- The estimate with all look-ups checked is the estimate. -/
theorem estimate_eq {p : EstimatorParams} (halign : secret.size = output.size) (hpos : 1 ≤ secret.size)
    (hsize : secret.size ≤ 2 ^ 64) (hneighbors : 1 ≤ p.neighbors.toNat) :
    estimate secret output p = .ok (InfoFlow.estimate secret output p).1 := by
  have hnats := estimateNats_eq (p.estimator.resolve secret.isDiscrete output.isDiscrete)
    (Xoshiro.ofSeed p.seed) halign hpos hsize hneighbors p.neighbors.toNat_lt_size.le
  unfold estimate InfoFlow.estimate
  by_cases hconstant : (secret.values.isConstant || output.values.isConstant) = true
  · rw [if_pos hconstant, if_pos hconstant]
    rfl
  · rw [if_neg hconstant, if_neg hconstant]
    dsimp only
    rw [hnats, Except.ok_bind]
    rfl

end Estimate

end Guarded

end InfoFlow
