import InfoFlow.Proofs.Information.Groups
import InfoFlow.Proofs.Information.Guarded
import InfoFlow.Proofs.Matrix

namespace InfoFlow

variable {α β : Type} [Scalar α] [BEq β]

namespace Guarded

/-- The rows at some positions, which all have to be there. -/
def select (m : Matrix α) (positions : List Nat) : Except EstimateFault (Matrix α) := do
  let rows ← positions.mapM fun i => entry m.rows[i]?
  return ⟨m.width, rows.toArray, .byRow⟩

/-- The samples of each label, in order. -/
def groupsOf (labels : List β) : List (β × List Nat) :=
  labels.eraseDups.map fun l => (l, samplesOf labels l)

/-- The samples of a label, which has to have a group. -/
def groupAt (groups : List (β × List Nat)) (label : β) : Except EstimateFault (List Nat) :=
  match groups.lookup label with
  | some rows => .ok rows
  | none => .error .missingGroup

/-- What has been found out about the samples, at the position of each: the distance to the last of its
neighbors, and how many neighbors were looked at. -/
structure Tables (α : Type) where
  radius : Array α
  neighbors : Array Nat

namespace Tables

/-- Tables for `n` samples that nothing is known about. -/
def blank (n : Nat) : Tables α := ⟨Array.replicate n 0, Array.replicate n 0⟩

/-- Writes the distances and the number of neighbors for the samples of one group. -/
def recordGroup (c : Matrix α) (k : Nat) (t : Tables α) (rows : List Nat) :
    Except EstimateFault (Tables α) := do
  let k := Nat.min k (rows.length - 1)
  let set ← pointSet (← select c rows)
  rows.zipIdx.foldlM (fun t (i, position) => do
    let radius ← kthNeighborDistance set position k
    return ⟨← write t.radius i radius, ← write t.neighbors i k⟩) t

/-- Goes through the groups with more than one sample. -/
def recordGroups (c : Matrix α) (k : Nat) (groups : List (β × List Nat)) (n : Nat) :
    Except EstimateFault (Tables α) :=
  (groups.filter fun (_, rows) => 1 < rows.length).foldlM
    (fun t (_, rows) => recordGroup c k t rows) (blank n)

end Tables

end Guarded

section Samples

/-- The samples with the label of sample `i`. -/
def groupOf (labels : List β) (i : Nat) : List Nat := (labels[i]?.map (samplesOf labels)).getD []

/-- The samples whose label occurs more than once, in order. -/
def sharedRows (labels : List β) : List Nat :=
  (List.range labels.length).filter fun i => 1 < (groupOf labels i).length

/-- What its own group says of a sample. -/
def groupedSampleOf (c : Matrix α) (labels : List β) (k i : Nat) : GroupedSample α :=
  let rows := groupOf labels i
  let k := Nat.min k (rows.length - 1)
  ⟨i, rows.length, k, (PointSet.ofMatrix (c.select rows)).kthNeighborDistance (rows.idxOf i) k⟩

/-- What sample `i`, at a position among the kept ones, adds to the mean. -/
def rossTerm (c : Matrix α) (labels : List β) (k position i : Nat) : α :=
  let set := PointSet.ofMatrix (c.select (sharedRows labels))
  let s := groupedSampleOf c labels k i
  Special.digamma (Scalar.ofNat s.neighbors) - Special.digamma (Scalar.ofNat s.groupSize) -
    Special.digamma (Scalar.ofNat (set.countWithin position s.radius + 1))

def rossTerms (c : Matrix α) (labels : List β) (k : Nat) : List α :=
  (sharedRows labels).zipIdx.map fun kept => rossTerm c labels k kept.2 kept.1

variable (c : Matrix α) {labels : List β} (k : Nat) {i : Nat} {l : β}

omit [Scalar α] in
theorem groupOf_eq (h : labels[i]? = some l) : groupOf labels i = samplesOf labels l := by
  unfold groupOf
  rw [h]
  rfl

variable [LawfulBEq β]

theorem groupSamples_eq_map (l : β) : groupSamples c labels k l =
    ((samplesOf labels l).filter fun i => 1 < (groupOf labels i).length).map
      (groupedSampleOf c labels k) := by
  have hgroup (i : Nat) (hi : i ∈ samplesOf labels l) : groupOf labels i = samplesOf labels l :=
    groupOf_eq (mem_samplesOf.mp hi)
  unfold groupSamples
  by_cases hone : (samplesOf labels l).length ≤ 1
  · rw [if_pos hone, List.filter_eq_nil_iff.mpr, List.map_nil]
    intro i hi
    rw [decide_eq_true_iff, hgroup i hi]
    omega
  · rw [if_neg hone, List.filter_eq_self.mpr]
    · apply map_zipIdx_eq
      intro position hposition
      unfold groupedSampleOf
      dsimp only
      rw [hgroup _ (List.getElem_mem hposition),
        (nodup_samplesOf labels l).idxOf_getElem position hposition]
    · intro i hi
      rw [decide_eq_true_iff, hgroup i hi]
      omega

omit [Scalar α] [LawfulBEq β] in
theorem lt_length_of_mem_sharedRows (hi : i ∈ sharedRows labels) : i < labels.length :=
  List.mem_range.mp (List.mem_of_mem_filter hi)

omit [Scalar α] [LawfulBEq β] in
theorem length_sharedRows_le : (sharedRows labels).length ≤ labels.length :=
  (List.length_filter_le _ _).trans_eq List.length_range

omit [Scalar α] [LawfulBEq β] in
theorem lt_size_of_mem_sharedRows {c : Matrix α} (hlength : labels.length = c.size)
    (hi : i ∈ sharedRows labels) : i < c.size :=
  (lt_length_of_mem_sharedRows hi).trans_eq hlength

omit [Scalar α] [LawfulBEq β] in
theorem size_select_sharedRows {c : Matrix α} (hlength : labels.length = c.size) :
    (c.select (sharedRows labels)).size = (sharedRows labels).length :=
  Matrix.size_select fun _ hi => lt_size_of_mem_sharedRows hlength hi

omit [LawfulBEq β] in
/-- A sample that shares its label has at least one neighbor to look at, and no more than its group has. -/
theorem groupedSampleOf_bounds (hk : 1 ≤ k) (hi : i ∈ sharedRows labels) :
    1 ≤ (groupedSampleOf c labels k i).neighbors ∧ (groupedSampleOf c labels k i).neighbors ≤ k ∧
      1 < (groupedSampleOf c labels k i).groupSize ∧
      (groupedSampleOf c labels k i).groupSize ≤ labels.length := by
  have hmany : 1 < (groupOf labels i).length := of_decide_eq_true (List.mem_filter.mp hi).2
  have hle : (groupOf labels i).length ≤ labels.length := by
    rw [groupOf_eq (List.getElem?_eq_getElem (lt_length_of_mem_sharedRows hi)), samplesOf_eq]
    exact (List.length_filter_le _ _).trans_eq List.length_range
  unfold groupedSampleOf
  dsimp only
  exact ⟨Nat.le_min.mpr ⟨hk, by omega⟩, Nat.min_le_left _ _, hmany, hle⟩

theorem groupedSamples_eq_sharedRows :
    groupedSamples c labels k = (sharedRows labels).map (groupedSampleOf c labels k) :=
  groupedSamples_eq_map (fun _ => rfl) (groupSamples_eq_map c k)

/-- The estimate for a continuous side and labels, sample by sample. -/
theorem ross_eq_rossTerms : ross c labels k =
    if (sharedRows labels).isEmpty then 0
    else Special.digamma (Scalar.ofNat (sharedRows labels).length) +
      Scalar.sum (rossTerms c labels k) / Scalar.ofNat (sharedRows labels).length := by
  have hindex : ((sharedRows labels).map (groupedSampleOf c labels k)).map GroupedSample.index =
      sharedRows labels := by
    rw [List.map_map]
    exact List.map_id _
  unfold ross rossWith
  rw [groupedSamples_eq_sharedRows]
  dsimp only
  rw [hindex, List.isEmpty_map, List.length_map, List.zipIdx_map, List.map_map]
  rfl

end Samples

namespace Guarded

section LookUps

variable {m : Matrix α} {positions : List Nat}

omit [Scalar α] in
theorem select_eq (h : ∀ i ∈ positions, i < m.size) : select m positions = .ok (m.select positions) := by
  have hrows : positions.mapM (fun i => entry m.rows[i]?) =
      .ok (positions.filterMap fun i => m.rows[i]?) := by
    induction positions with
    | nil => rfl
    | cons i positions ih =>
      obtain ⟨hi, hrest⟩ := List.forall_mem_cons.mp h
      have hrow := Array.getElem?_eq_getElem hi
      rw [List.mapM_cons, ih hrest, List.filterMap_cons_some hrow, hrow]
      rfl
  unfold select
  rw [hrows]
  rfl

variable [LawfulBEq β] {labels : List β} {i : Nat}

omit [Scalar α] in
theorem groupAt_eq {l : β} (h : l ∈ labels) :
    groupAt (groupsOf labels) l = .ok (samplesOf labels l) := by
  unfold groupAt groupsOf
  rw [List.lookup_graph _ (List.mem_eraseDups.mpr h)]

/-- Every sample finds its label, and the label its group. -/
theorem groupAt_label_eq (hi : i < labels.length) :
    (do groupAt (groupsOf labels) (← entry labels[i]?)) = .ok (groupOf labels i) := by
  have hlabel := List.getElem?_eq_getElem hi
  rw [groupOf_eq hlabel, hlabel]
  exact groupAt_eq (List.getElem_mem hi)

end LookUps

namespace Tables

/-- The tables with what is known of a sample. -/
def record (t : Tables α) (s : GroupedSample α) : Tables α :=
  ⟨t.radius.setIfInBounds s.index s.radius, t.neighbors.setIfInBounds s.index s.neighbors⟩

/-- Tables with a place for each of `n` samples. -/
structure HasPlaces (n : Nat) (t : Tables α) : Prop where
  radius : t.radius.size = n
  neighbors : t.neighbors.size = n

section Record

omit [Scalar α]

variable {n i : Nat} {t : Tables α}

theorem HasPlaces.blank [Scalar α] (n : Nat) : HasPlaces n (blank n : Tables α) :=
  ⟨Array.size_replicate, Array.size_replicate⟩

theorem HasPlaces.record (h : t.HasPlaces n) (s : GroupedSample α) : (t.record s).HasPlaces n :=
  ⟨Array.size_setIfInBounds.trans h.radius, Array.size_setIfInBounds.trans h.neighbors⟩

theorem HasPlaces.foldl_record (h : t.HasPlaces n) (samples : List (GroupedSample α)) :
    (samples.foldl Tables.record t).HasPlaces n := by
  induction samples generalizing t with
  | nil => exact h
  | cons s samples ih => exact ih (h.record s)

theorem radius_foldl_record (samples : List (GroupedSample α)) (t : Tables α) :
    (samples.foldl record t).radius =
      Updates.run (samples.map fun s => (s.index, s.radius)) t.radius := by
  rw [Updates.run, List.foldl_map]
  exact (List.foldl_hom Tables.radius fun _ _ => rfl).symm

theorem neighbors_foldl_record (samples : List (GroupedSample α)) (t : Tables α) :
    (samples.foldl record t).neighbors =
      Updates.run (samples.map fun s => (s.index, s.neighbors)) t.neighbors := by
  rw [Updates.run, List.foldl_map]
  exact (List.foldl_hom Tables.neighbors fun _ _ => rfl).symm

/-- A sample that is recorded is looked up, if no other one is recorded in its place. -/
theorem entry_run_eq {γ : Type} {samples : List (GroupedSample α)} {sample : GroupedSample α}
    (hmem : sample ∈ samples) (hunique : ∀ s ∈ samples, s.index = sample.index → s = sample)
    (f : GroupedSample α → γ) {values : Array γ} (hlt : sample.index < values.size) :
    entry (Updates.run (samples.map fun s => (s.index, f s)) values)[sample.index]? =
      .ok (f sample) := by
  have hvalue (x : γ) (hx : (sample.index, x) ∈ samples.map fun s => (s.index, f s)) :
      x = f sample := by
    obtain ⟨s, hs, heq⟩ := List.mem_map.mp hx
    obtain ⟨hindex, rfl⟩ := Prod.mk.inj heq
    rw [hunique s hs hindex]
  have hnamed : sample.index ∈ (samples.map fun s => (s.index, f s)).map Prod.fst :=
    List.mem_map_of_mem (List.mem_map_of_mem hmem)
  rw [Updates.getElem?_run_of_mem hvalue hnamed hlt]
  rfl

end Record

section Groups

variable {c : Matrix α} {labels : List β} {n : Nat} {t : Tables α}

/-- A group with more than one sample is searched, and written to the tables, within bounds. -/
theorem recordGroup_eq (hlength : labels.length = c.size) (k : Nat) (ht : t.HasPlaces c.size) {l : β}
    (hmany : 1 < (samplesOf labels l).length) : recordGroup c k t (samplesOf labels l) =
      .ok ((groupSamples c labels k l).foldl record t) := by
  have hrows (i : Nat) (hi : i ∈ samplesOf labels l) : i < c.size :=
    hlength ▸ lt_length_of_mem_samplesOf hi
  have hsize : (c.select (samplesOf labels l)).size = (samplesOf labels l).length :=
    Matrix.size_select hrows
  unfold recordGroup groupSamples
  rw [select_eq hrows, if_neg (not_le.mpr hmany), List.foldl_map]
  dsimp only
  rw [Except.ok_bind, pointSet_eq, Except.ok_bind]
  apply Except.foldlM_eq_ok_foldl (I := HasPlaces c.size) ht
  rintro t ⟨i, position⟩ ht hmem
  have hposition : position < (c.select (samplesOf labels l)).size :=
    hsize ▸ List.snd_lt_of_mem_zipIdx hmem
  have hi : i < c.size := hrows i (List.fst_mem_of_mem_zipIdx hmem)
  have hradius : i < t.radius.size := ht.radius ▸ hi
  have hneighbors : i < t.neighbors.size := ht.neighbors ▸ hi
  refine ⟨?_, ht.record _⟩
  dsimp only [write]
  rw [kthNeighborDistance_eq_ok hposition, Except.ok_bind, if_pos hradius, if_pos hneighbors]
  rfl

/-- All groups are written within bounds. -/
theorem recordGroups_eq (hlength : labels.length = c.size) (k : Nat) :
    recordGroups c k (groupsOf labels) labels.length =
      .ok ((labels.eraseDups.flatMap (groupSamples c labels k)).foldl record (blank labels.length)) := by
  unfold recordGroups groupsOf
  rw [List.foldlM_filter, List.foldlM_map, List.foldl_flatMap, hlength]
  apply Except.foldlM_eq_ok_foldl (I := HasPlaces c.size) (HasPlaces.blank c.size)
  intro t l ht _
  refine ⟨?_, ht.foldl_record _⟩
  dsimp only
  split
  case isTrue hmany => exact recordGroup_eq hlength k ht (of_decide_eq_true hmany)
  case isFalse hone =>
    unfold groupSamples
    rw [if_pos (by simpa using hone)]
    rfl

variable [LawfulBEq β]

/-- Every sample whose label occurs more than once finds in the tables what its group says of it. -/
theorem exists_recordGroups (hlength : labels.length = c.size) (k : Nat) :
    ∃ t, recordGroups c k (groupsOf labels) labels.length = .ok t ∧ ∀ i ∈ sharedRows labels,
      entry t.radius[i]? = .ok (groupedSampleOf c labels k i).radius ∧
        entry t.neighbors[i]? = .ok (groupedSampleOf c labels k i).neighbors := by
  refine ⟨_, recordGroups_eq hlength k, ?_⟩
  intro i hi
  set samples := labels.eraseDups.flatMap (groupSamples c labels k)
  have hlt : i < labels.length := lt_length_of_mem_sharedRows hi
  have hperm : samples.Perm ((sharedRows labels).map (groupedSampleOf c labels k)) := by
    rw [← groupedSamples_eq_sharedRows]
    exact (List.mergeSort_perm _ _).symm
  have hmem : groupedSampleOf c labels k i ∈ samples := hperm.symm.subset (List.mem_map_of_mem hi)
  have hunique (s : GroupedSample α) (hs : s ∈ samples) (hindex : s.index = i) :
      s = groupedSampleOf c labels k i := by
    obtain ⟨j, _, rfl⟩ := List.mem_map.mp (hperm.subset hs)
    rw [← hindex]
    rfl
  rw [radius_foldl_record, neighbors_foldl_record]
  have hplaces : HasPlaces labels.length (blank labels.length : Tables α) := HasPlaces.blank _
  exact ⟨entry_run_eq hmem hunique GroupedSample.radius (hlt.trans_eq hplaces.radius.symm),
    entry_run_eq hmem hunique GroupedSample.neighbors (hlt.trans_eq hplaces.neighbors.symm)⟩

end Groups

end Tables

end Guarded

end InfoFlow
