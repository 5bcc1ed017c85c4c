import InfoFlow.Proofs.Information.Distances
import InfoFlow.Proofs.Information.Groups

namespace InfoFlow

section Formula

variable {β γ : Type} [DecidableEq β] [DecidableEq γ]

/-- What a sample adds to the mean, by the distances and the labels of some samples. -/
noncomputable def rossFormulaTerm (ψ : Exact → Exact) (d : ℕ → ℕ → ℝ) (label : ℕ → β) (s : Finset ℕ)
    (k i : ℕ) : Exact :=
  let size := (sameLabel label s i).card
  let neighbors := min k (size - 1)
  let radius := kthNearest d (sameLabel label s i) neighbors i
  ψ (.real neighbors) - ψ (.real size) - ψ (.real (closer d (repeated label s) radius i + 1))

/-- The estimate for a continuous side and labels, by the distances and the labels of the samples. -/
noncomputable def rossFormula (ψ : Exact → Exact) (d : ℕ → ℕ → ℝ) (label : ℕ → β) (s : Finset ℕ) (k : ℕ) :
    Exact :=
  let kept := repeated label s
  if kept.card = 0 then 0
  else ψ (.real kept.card) + Exact.total (kept.val.map (rossFormulaTerm ψ d label s k)) / .real kept.card

variable {d d' : ℕ → ℕ → ℝ} {s s' : Finset ℕ} {e : ℕ → ℕ} {label : ℕ → β} {label' : ℕ → γ}
  (h : IsRenumbered e s s' d d')
  (hlabel : ∀ i ∈ s', ∀ j ∈ s', (label' i = label' j ↔ label (e i) = label (e j)))

include h hlabel

theorem IsRenumbered.sameLabel {i : ℕ} (hi : i ∈ s') :
    IsRenumbered e (sameLabel label s (e i)) (sameLabel label' s' i) d d' :=
  h.filter fun j hj => hlabel j hj i hi

theorem IsRenumbered.repeated : IsRenumbered e (repeated label s) (repeated label' s') d d' :=
  h.filter fun i hi => by rw [(h.sameLabel hlabel hi).card_eq]

/-- Samples may be numbered in another way and have other labels, as long as the same ones share theirs. -/
theorem rossFormula_eq (ψ : Exact → Exact) (k : ℕ) :
    rossFormula ψ d' label' s' k = rossFormula ψ d label s k := by
  have hkept := h.repeated hlabel
  have hterm (i : ℕ) (hi : i ∈ repeated label' s') :
      rossFormulaTerm ψ d' label' s' k i = rossFormulaTerm ψ d label s k (e i) := by
    have hsample := Finset.mem_of_mem_filter i hi
    have hgroup := h.sameLabel hlabel hsample
    unfold rossFormulaTerm
    dsimp only
    rw [hgroup.card_eq, hgroup.kthNearest_eq (Finset.mem_filter.mpr ⟨hsample, rfl⟩), hkept.closer_eq hi]
  unfold rossFormula
  dsimp only
  rw [hkept.card_eq, hkept.total_eq hterm]

end Formula

section Estimate

variable {β : Type} [DecidableEq β] {c : Matrix Exact} {labels : List β} {k : ℕ}

/-- What its own group says of a sample. -/
noncomputable def groupedSample (d : ℕ → ℕ → ℝ) (label : ℕ → β) (s : Finset ℕ) (k i : ℕ) :
    GroupedSample Exact where
  index := i
  groupSize := (sameLabel label s i).card
  neighbors := min k ((sameLabel label s i).card - 1)
  radius := kthNearest d (sameLabel label s i) (min k ((sameLabel label s i).card - 1)) i

/-- The samples whose label occurs more than once, in order. -/
def keptRows (labels : List β) : List ℕ :=
  (List.range labels.length).filter fun i =>
    1 < (sameLabel (fun i => labels[i]?) (Finset.range labels.length) i).card

theorem coe_keptRows (labels : List β) : (keptRows labels : Multiset ℕ) =
    (repeated (fun i => labels[i]?) (Finset.range labels.length)).val := rfl

theorem nodup_keptRows (labels : List β) : (keptRows labels).Nodup := List.nodup_range.filter _

theorem toFinset_keptRows (labels : List β) :
    (keptRows labels).toFinset = repeated (fun i => labels[i]?) (Finset.range labels.length) := by
  unfold keptRows repeated
  rw [List.toFinset_filter, List.toFinset_range]
  simp only [decide_eq_true_eq]

variable (hc : c.IsFinite) (hlength : labels.length = c.size) (hk : 1 ≤ k)

include hc hlength hk

theorem groupSamples_eq (l : β) : groupSamples c labels k l =
    ((samplesOf labels l).filter fun i =>
      1 < (sameLabel (fun i => labels[i]?) (Finset.range labels.length) i).card).map
        (groupedSample c.gap (fun i => labels[i]?) (Finset.range labels.length) k) := by
  have hcard (i : ℕ) (hi : i ∈ samplesOf labels l) := card_sameLabel hi
  unfold groupSamples
  by_cases hone : (samplesOf labels l).length ≤ 1
  · rw [if_pos hone, List.filter_eq_nil_iff.mpr, List.map_nil]
    intro i hi
    rw [decide_eq_true_iff, hcard i hi]
    omega
  · have hrows (i : ℕ) (hi : i ∈ samplesOf labels l) : i < c.size :=
      hlength ▸ lt_length_of_mem_samplesOf hi
    rw [if_neg hone, List.filter_eq_self.mpr]
    · refine map_zipIdx_eq fun position hposition => ?_
      have hmem : (samplesOf labels l)[position] ∈ samplesOf labels l := List.getElem_mem hposition
      dsimp only
      rw [Matrix.kthNeighborDistance_select hrows hc (nodup_samplesOf labels l) hposition
        (Nat.le_min.mpr ⟨hk, by omega⟩), toFinset_samplesOf hmem]
      unfold groupedSample
      rw [hcard _ hmem]
    · intro i hi
      rw [decide_eq_true_iff, hcard i hi]
      omega

theorem groupedSamples_eq : groupedSamples c labels k = (keptRows labels).map
    (groupedSample c.gap (fun i => labels[i]?) (Finset.range labels.length) k) :=
  groupedSamples_eq_map (fun _ => rfl) (groupSamples_eq hc hlength hk)

theorem rossWith_eq (ψ : Exact → Exact) : rossWith ψ c labels k =
    rossFormula ψ c.gap (fun i => labels[i]?) (Finset.range labels.length) k := by
  set sample := groupedSample c.gap (fun i => labels[i]?) (Finset.range labels.length) k
  have hrows (i : ℕ) (hi : i ∈ keptRows labels) : i < c.size :=
    hlength ▸ List.mem_range.mp (List.mem_of_mem_filter hi)
  have hcard : (repeated (fun i => labels[i]?) (Finset.range labels.length)).card =
      (keptRows labels).length := by
    rw [← toFinset_keptRows, List.toFinset_card_of_nodup (nodup_keptRows labels)]
  have hindex : ((keptRows labels).map sample).map GroupedSample.index = keptRows labels := by
    rw [List.map_map]
    exact List.map_id _
  unfold rossWith rossFormula
  rw [groupedSamples_eq hc hlength hk]
  dsimp only
  rw [hindex, hcard, List.isEmpty_map, List.length_map]
  by_cases hempty : keptRows labels = []
  · rw [hempty]
    rfl
  · rw [if_neg (by simpa using hempty), if_neg (by simpa using hempty), ← coe_keptRows, Multiset.map_coe,
      ← Exact.sum_eq_total]
    refine congrArg (fun terms => _ + Scalar.sum terms / _) ?_
    rw [List.zipIdx_map, List.map_map]
    refine map_zipIdx_eq fun position hposition => ?_
    dsimp only [Function.comp_apply, Prod.map_apply, id]
    rw [Matrix.countWithin_select hrows hc (nodup_keptRows labels) hposition, toFinset_keptRows,
      Exact.ofNat_eq, Exact.ofNat_eq, Exact.ofNat_eq, Nat.cast_add_one]
    rfl

/-- In exact arithmetic, the estimate for finite numbers and labels is its formula, whatever the digamma
function. It stays the same with other names for the labels, and with samples and labels in another
order. -/
theorem rossWith_formula (ψ : Exact → Exact) :
    rossWith ψ c labels k = rossFormula ψ c.gap (fun i => labels[i]?) (Finset.range c.size) k ∧
      (∀ (γ : Type) [DecidableEq γ] (f : β → γ), f.Injective →
        rossWith ψ c (labels.map f) k = rossWith ψ c labels k) ∧
      ∀ positions, positions.Perm (List.range c.size) →
        rossWith ψ (c.select positions) (positions.filterMap fun i => labels[i]?) k =
          rossWith ψ c labels k := by
  have hformula := rossWith_eq hc hlength hk ψ
  refine ⟨hlength ▸ hformula, fun γ _ f hf => ?_, fun positions hperm => ?_⟩
  · have hlength' : (labels.map f).length = c.size := by rwa [List.length_map]
    rw [rossWith_eq hc hlength' hk, hformula, List.length_map]
    refine rossFormula_eq (.refl _ _) (fun i _ j _ => ?_) ψ k
    rw [List.getElem?_map, List.getElem?_map]
    exact (Option.map_injective hf).eq_iff
  · have hlabels (i : ℕ) (hi : i ∈ positions) : labels[i]?.isSome := by
      rw [List.getElem?_eq_getElem (hlength ▸ Matrix.lt_size_of_perm hperm hi)]
      rfl
    have hcount : (positions.filterMap fun i => labels[i]?).length = positions.length :=
      List.filterMap_length_eq_length.mpr hlabels
    have hlength' : (positions.filterMap fun i => labels[i]?).length = c.size := by
      rw [hcount, hperm.length_eq, List.length_range]
    have hat (i : ℕ) (hi : i ∈ Finset.range c.size) :
        (positions.filterMap fun i => labels[i]?)[i]? = labels[positions.getD i 0]? := by
      have hi : i < positions.length := hcount ▸ hlength' ▸ Finset.mem_range.mp hi
      rw [getElem?_filterMap_of_isSome hlabels, List.getElem?_eq_getElem hi,
        List.getD_eq_getElem _ _ hi]
      rfl
    rw [rossWith_eq (Matrix.isFinite_select hc _)
      (hlength'.trans (Matrix.size_select_of_perm hperm).symm) hk, hformula, hlength', hlength]
    refine rossFormula_eq (Matrix.isRenumbered_of_perm hperm) (fun i hi j hj => ?_) ψ k
    rw [hat i hi, hat j hj]

end Estimate

/-- Two labels of two samples each, whose groups are far from each other, and a label of its own. -/
theorem rossWith_twoGroups :
    (Matrix.ofVector [Exact.real 0, .real 1, .real 10, .real 11, .real 5]).IsFinite ∧
      rossWith id (.ofVector [Exact.real 0, .real 1, .real 10, .real 11, .real 5]) [0, 0, 1, 1, 2] 3 =
        .real 2 := by
  have hc : (Matrix.ofVector [Exact.real 0, .real 1, .real 10, .real 11, .real 5]).IsFinite :=
    Matrix.isFinite_ofVector (by simp [Exact.isFinite_iff])
  have hsize : (Matrix.ofVector [Exact.real 0, .real 1, .real 10, .real 11, .real 5]).size = 5 := rfl
  have hlength : [0, 0, 1, 1, 2].length = 5 := rfl
  refine ⟨hc, (rossWith_formula hc (hlength.trans hsize.symm) (by decide : 1 ≤ 3) id).1.trans ?_⟩
  rw [hsize]
  set d := (Matrix.ofVector [Exact.real 0, .real 1, .real 10, .real 11, .real 5]).gap with hd
  set label : ℕ → Option ℕ := fun i => [0, 0, 1, 1, 2][i]?
  have hkept : repeated label (Finset.range 5) = Finset.range 4 := by decide
  have hfar (i l : ℕ) (hi : i < 4) (hl : l < 4) (hne : l ≠ i) : 1 ≤ d i l := by
    interval_cases i <;> interval_cases l <;>
      first | exact absurd rfl hne | norm_num [hd, Matrix.gap_ofVector, Exact.toReal]
  have hterm (i j : ℕ) (hi : i < 4) (hcard : (sameLabel label (Finset.range 5) i).card = 2)
      (hother : (sameLabel label (Finset.range 5) i).erase i = {j}) (hgap : d i j = 1) :
      rossFormulaTerm id d label (Finset.range 5) 3 i = .real (-2) := by
    have hcloser : closer d (Finset.range 4) (.real 1) i = 0 := closer_eq_zero fun l hl =>
      hfar i l hi (Finset.mem_range.mp (Finset.mem_of_mem_erase hl)) (Finset.ne_of_mem_erase hl)
    have hradius : kthNearest d (sameLabel label (Finset.range 5) i) 1 i = .real (d i j) :=
      kthNearest_of_erase_eq hother
    unfold rossFormulaTerm
    rw [hkept, hcard]
    norm_num [hradius, hgap, hcloser]
  obtain ⟨h01, h10, h23, h32⟩ : d 0 1 = 1 ∧ d 1 0 = 1 ∧ d 2 3 = 1 ∧ d 3 2 = 1 := by
    norm_num [hd, Matrix.gap_ofVector, Exact.toReal]
  have htotal : Exact.total ((Finset.range 4).val.map (rossFormulaTerm id d label (Finset.range 5) 3)) =
      .real (-8) := by
    refine (Exact.sum_eq_total [_, _, _, _]).symm.trans ?_
    rw [hterm 0 1 (by decide) rfl rfl h01, hterm 1 0 (by decide) rfl rfl h10,
      hterm 2 3 (by decide) rfl rfl h23, hterm 3 2 (by decide) rfl rfl h32]
    exact (Exact.sum_map_real [-2, -2, -2, -2]).trans (by norm_num)
  unfold rossFormula
  rw [hkept]
  dsimp only
  rw [htotal, Finset.card_range, Exact.real_div (by norm_num)]
  norm_num

end InfoFlow
