import InfoFlow.Information.NearestNeighbor
import InfoFlow.Proofs.Information.Entropy

namespace InfoFlow

section Labels

variable {β : Type} [BEq β] {labels : List β} {l : β} {i : ℕ}

theorem samplesOf_eq (labels : List β) (l : β) :
    samplesOf labels l = (List.range labels.length).filter fun i => labels[i]? == some l := by
  have hsame : labels.zipIdx.filter (fun p => p.1 == l) =
      labels.zipIdx.filter ((fun i => labels[i]? == some l) ∘ Prod.snd) := by
    refine List.filter_congr fun p hp => ?_
    have hat : labels[p.2]? = some p.1 := List.mk_mem_zipIdx_iff_getElem?.mp hp
    rw [Function.comp_apply, hat, Option.some_beq_some]
  calc samplesOf labels l = (labels.zipIdx.filter fun p => p.1 == l).map Prod.snd := rfl
    _ = (labels.zipIdx.map Prod.snd).filter fun i => labels[i]? == some l := by
      rw [hsame, List.filter_map]
    _ = (List.range labels.length).filter fun i => labels[i]? == some l := by
      rw [List.zipIdx_map_snd, List.range_eq_range']

theorem lt_length_of_mem_samplesOf (h : i ∈ samplesOf labels l) : i < labels.length := by
  rw [samplesOf_eq] at h
  exact List.mem_range.mp (List.mem_of_mem_filter h)

theorem nodup_samplesOf (labels : List β) (l : β) : (samplesOf labels l).Nodup := by
  rw [samplesOf_eq]
  exact List.nodup_range.filter _

variable [LawfulBEq β]

theorem mem_samplesOf : i ∈ samplesOf labels l ↔ labels[i]? = some l := by
  rw [samplesOf_eq, List.mem_filter, List.mem_range, beq_iff_eq, and_iff_right_iff_imp]
  exact fun h => (List.getElem?_eq_some_iff.mp h).1

/-- The samples of all labels, each once, are all samples. -/
theorem flatMap_samplesOf_perm (labels : List β) :
    (labels.eraseDups.flatMap (samplesOf labels)).Perm (List.range labels.length) := by
  have hnodup : (labels.eraseDups.flatMap (samplesOf labels)).Nodup := by
    refine List.nodup_flatMap.mpr ⟨fun l _ => nodup_samplesOf labels l, ?_⟩
    refine (nodup_eraseDups labels).imp fun {l l'} hne i hi hi' => hne ?_
    exact Option.some.inj ((mem_samplesOf.mp hi).symm.trans (mem_samplesOf.mp hi'))
  refine (List.perm_ext_iff_of_nodup hnodup List.nodup_range).mpr fun i => ?_
  rw [List.mem_flatMap, List.mem_range]
  constructor
  · rintro ⟨l, -, hi⟩
    exact lt_length_of_mem_samplesOf hi
  · intro hi
    exact ⟨labels[i], List.mem_eraseDups.mpr (List.getElem_mem hi),
      mem_samplesOf.mpr (List.getElem?_eq_getElem hi)⟩

/-- Samples are sorted by their positions, however they were put together from their groups. -/
theorem groupedSamples_eq_map {α : Type} [Scalar α] {c : Matrix α} {k : ℕ}
    {sample : ℕ → GroupedSample α} {p : ℕ → Bool} (hindex : ∀ i, (sample i).index = i)
    (hgroups : ∀ l, groupSamples c labels k l = ((samplesOf labels l).filter p).map sample) :
    groupedSamples c labels k = ((List.range labels.length).filter p).map sample := by
  have hperm : (labels.eraseDups.flatMap (groupSamples c labels k)).Perm
      (((List.range labels.length).filter p).map sample) := by
    rw [funext hgroups, ← List.map_flatMap, ← List.filter_flatMap]
    exact ((flatMap_samplesOf_perm labels).filter _).map _
  have hsorted : (((List.range labels.length).filter p).map sample).Pairwise
      fun a b => a.index ≤ b.index := by
    apply List.pairwise_map.mpr
    apply (List.pairwise_lt_range.filter p).imp
    intro i j hlt
    rw [hindex, hindex]
    exact hlt.le
  unfold groupedSamples
  set merged := (labels.eraseDups.flatMap (groupSamples c labels k)).mergeSort fun a b =>
    a.index ≤ b.index
  have hmerged : merged.Perm (((List.range labels.length).filter p).map sample) :=
    (List.mergeSort_perm _ _).trans hperm
  have hmergedSorted : merged.Pairwise fun a b => a.index ≤ b.index := by
    have htotal (a b : GroupedSample α) : decide (a.index ≤ b.index) || decide (b.index ≤ a.index) := by
      simpa using le_total a.index b.index
    refine (List.pairwise_mergeSort (fun a b d hab hbd => ?_) htotal _).imp of_decide_eq_true
    exact decide_eq_true (le_trans (of_decide_eq_true hab) (of_decide_eq_true hbd))
  -- samples with the same index are the same, so there is one way only to sort them
  refine hmerged.eq_of_pairwise (fun a b ha hb hab hba => ?_) hmergedSorted hsorted
  obtain ⟨i, -, rfl⟩ := List.mem_map.mp (hmerged.mem_iff.mp ha)
  obtain ⟨j, -, rfl⟩ := List.mem_map.mp hb
  rw [hindex, hindex] at hab hba
  exact congrArg sample (le_antisymm hab hba)

end Labels

/-- A map of elements and their positions may leave out the positions if it does not need them. -/
theorem map_zipIdx_eq {β γ : Type} {xs : List β} {f : β × ℕ → γ} {g : β → γ}
    (h : ∀ i, (hi : i < xs.length) → f (xs[i], i) = g xs[i]) : xs.zipIdx.map f = xs.map g := by
  refine List.ext_getElem (by simp) fun i hi _ => ?_
  rw [List.length_map, List.length_zipIdx] at hi
  rw [List.getElem_map, List.getElem_zipIdx, List.getElem_map, Nat.zero_add]
  exact h i hi


section Groups

variable {β : Type} [DecidableEq β] {labels : List β} {l : β} {i : ℕ}

/-- The samples with the label of one of them. -/
def sameLabel (label : ℕ → β) (s : Finset ℕ) (i : ℕ) : Finset ℕ := s.filter fun j => label j = label i

/-- The samples whose label occurs more than once. -/
def repeated (label : ℕ → β) (s : Finset ℕ) : Finset ℕ :=
  s.filter fun i => 1 < (sameLabel label s i).card

theorem toFinset_samplesOf (h : i ∈ samplesOf labels l) : (samplesOf labels l).toFinset =
    sameLabel (fun i => labels[i]?) (Finset.range labels.length) i := by
  rw [samplesOf_eq, List.toFinset_filter, List.toFinset_range]
  refine Finset.filter_congr fun j _ => ?_
  dsimp only
  rw [beq_iff_eq, mem_samplesOf.mp h]

theorem card_sameLabel (h : i ∈ samplesOf labels l) :
    (sameLabel (fun i => labels[i]?) (Finset.range labels.length) i).card =
      (samplesOf labels l).length := by
  rw [← toFinset_samplesOf h, List.toFinset_card_of_nodup (nodup_samplesOf labels l)]

end Groups

end InfoFlow
