import InfoFlow.CheckedSums
import InfoFlow.Proofs.Information.Groups
import InfoFlow.Proofs.Information.Neighbors
import InfoFlow.Proofs.Leakage.Curve
import InfoFlow.Proofs.Leakage.Queries
import InfoFlow.Proofs.Matrix

namespace InfoFlow

variable {α : Type}

section Neighbors

variable [Scalar α]

/-- The neighbors that the estimators look for among `n` samples are other samples: the `k`-th one of both
sides together, and for a label, as many as its samples allow. -/
structure FindsNeighbors (α : Type) [Scalar α] (k n : Nat) : Prop where
  joint {x y joint : Matrix α} {i : Nat} : x.beside? y = some joint → x.size = n → i < n →
    (PointSet.ofMatrix joint).IsDistance i ((PointSet.ofMatrix joint).kthNeighborDistance i k)
  grouped {β : Type} [BEq β] {c : Matrix α} {labels : List β} {label : β} {g : GroupedSample α} :
    c.size = n → labels.length = n → g ∈ groupSamples c labels k label →
      ∃ position, (PointSet.ofMatrix (c.select (samplesOf labels label))).IsDistance position g.radius

/-- A label with several samples looks at fewer neighbors than it has samples. -/
theorem isDistance_of_mem_groupSamples {β : Type} [BEq β] {c : Matrix α} {labels : List β} {k : Nat}
    {label : β} {g : GroupedSample α} (hk : 1 ≤ k) (hlength : labels.length = c.size)
    (hg : g ∈ groupSamples c labels k label) :
    ∃ position, (PointSet.ofMatrix (c.select (samplesOf labels label))).IsDistance position
      g.radius := by
  have hs := PointSet.ofMatrix_wellFormed (c.select (samplesOf labels label))
  have hsize : (PointSet.ofMatrix (c.select (samplesOf labels label))).size =
      (samplesOf labels label).length := by
    refine hs.size_eq.trans (Matrix.size_select fun i hi => ?_)
    exact hlength ▸ lt_length_of_mem_samplesOf hi
  unfold groupSamples at hg
  dsimp only at hg
  split at hg
  · cases hg
  · rename_i hseveral
    obtain ⟨⟨i, position⟩, hmem, rfl⟩ := List.mem_map.mp hg
    have hget := List.mem_zipIdx_iff_getElem?.mp hmem
    have hposition : position < (samplesOf labels label).length :=
      (List.getElem?_eq_some_iff.mp hget).1
    have hleast : Nat.min k ((samplesOf labels label).length - 1) =
        min k ((samplesOf labels label).length - 1) := rfl
    refine ⟨position, PointSet.isDistance_kthNeighborDistance hs (hsize ▸ hposition) ?_ ?_⟩
    · rw [hleast]
      omega
    · rw [hleast, hsize]
      omega

theorem findsNeighbors_of_lt {k n : Nat} (hk : 1 ≤ k) (hlt : k < n) : FindsNeighbors α k n where
  joint {x y joint i} hjoint hsize hi := by
    have hs := PointSet.ofMatrix_wellFormed joint
    have hrows : x.size = joint.size := (Matrix.IsPartOf.of_beside? hjoint).1.size_eq
    have hsame : (PointSet.ofMatrix joint).size = n := hs.size_eq.trans (hrows.symm.trans hsize)
    exact PointSet.isDistance_kthNeighborDistance hs (hsame ▸ hi) hk (hsame ▸ hlt)
  grouped hsize hlength hg := isDistance_of_mem_groupSamples hk (hlength.trans hsize.symm) hg

end Neighbors

namespace EstimatorParams

variable {p : EstimatorParams}

/-- Estimates with the parameters are made from more samples than they have neighbors: a single one, the
answer to a query, and every point of a curve. -/
structure LeavesRoom (α : Type) [Scalar α] (p : EstimatorParams) : Prop where
  mutualInformation {secret output : Samples α} {estimate : α} :
    mutualInformation secret output p = .ok estimate → p.neighbors.toNat < secret.size
  leakage {t : Trace α} {query : LeakageQuery} {report : LeakageReport α} :
    query.params = p → t.leakage query = pure report → p.neighbors.toNat < report.sampleSize
  leakageCurve {secret output : Samples α} {sizes : List Nat} {deltas : List α} {window : Nat}
    {isRelative : Bool} {curve : LeakageCurve α} {point : CurvePoint α} :
    leakageCurve secret output p sizes deltas window isRelative = .ok curve →
      point ∈ curve.points → p.neighbors.toNat < point.samples ∧ point.samples ≤ secret.size

theorem neighbors_ne_zero (h : p.validate = .ok ()) : p.neighbors ≠ 0 := by
  intro hzero
  unfold validate at h
  rw [if_pos hzero] at h
  cases h

theorem one_le_neighbors (h : p.validate = .ok ()) : 1 ≤ p.neighbors.toNat :=
  Nat.one_le_iff_ne_zero.mpr fun hzero => neighbors_ne_zero h (UInt64.toNat_inj.mp hzero)

theorem neighbors_lt_sampleFloor (h : p.neighbors.toNat + 1 < 2 ^ 64) :
    p.neighbors.toNat < p.sampleFloor.toNat := by
  rw [toNat_sampleFloor h]
  exact Nat.le_max_right p.minSamples.toNat (p.neighbors.toNat + 1)

/-- Where one more than the neighbors is zero, nothing but the other parameter is left of the floor. -/
theorem sampleFloor_of_wraps (h : p.neighbors + 1 = 0) : p.sampleFloor = p.minSamples := by
  unfold sampleFloor
  rw [h]
  split
  · rename_i hle
    exact (UInt64.le_zero_iff.mp hle).symm
  · rfl

variable [Scalar α]

/-- Sizes that pass the check are at least the floor. -/
theorem sampleFloor_le_of_checkSizes {secret output : Nat} (h : checkSizes secret output p = .ok ()) :
    p.sampleFloor.toNat ≤ secret := by
  rw [checkSizes_eq] at h
  split_ifs at h with _ hfew
  exact Nat.le_of_not_lt hfew

theorem leavesRoom_of_lt (h : p.neighbors.toNat < p.sampleFloor.toNat) : p.LeavesRoom α where
  mutualInformation hestimate := by
    obtain ⟨_, _, hestimate⟩ := Except.bind_eq_ok_iff.mp hestimate
    obtain ⟨_, hsizes, _⟩ := Except.bind_eq_ok_iff.mp hestimate
    exact h.trans_le (sampleFloor_le_of_checkSizes hsizes)
  leakage {t query report} hparams hreport := by
    obtain ⟨hne, _, _, output, secrets, entries, _, hsecrets, hentries, rfl⟩ :=
      Trace.leakage_eq_pure_iff.mp hreport
    obtain ⟨selector, hselector⟩ := List.exists_mem_of_ne_nil _ hne
    obtain ⟨secret, hsecret, _⟩ := hsecrets.exists_of_mem_left hselector
    obtain ⟨entry, _, hentry⟩ := hentries.exists_of_mem_left (List.mem_mergeSort.mpr hsecret)
    obtain ⟨_, hsizes, _⟩ := Except.bind_eq_ok_iff.mp hentry
    rw [hparams] at hsizes
    exact h.trans_le ((sampleFloor_le_of_checkSizes hsizes).trans_eq (Trace.size_of_reportEntry hentry))
  leakageCurve {secret output sizes deltas window isRelative curve point} hcurve hpoint := by
    have hmem : point.samples ∈ curveSizes sizes secret.size p.sampleFloor.toNat :=
      samples_of_leakageCurve hcurve ▸ List.mem_map_of_mem hpoint
    obtain ⟨hfloor, s, _, hsize⟩ := mem_curveSizes.mp hmem
    exact ⟨h.trans_le hfloor, hsize ▸ min_le_right s secret.size⟩

/-- As many samples as the other parameter asks for, all of them alike. -/
def fewSamples (α : Type) [Scalar α] (p : EstimatorParams) : Samples α :=
  ⟨⟨1, Array.replicate p.minSamples.toNat #v[0], .byRow⟩, true⟩

/-- Without room for one more neighbor, there are estimates from no more samples than neighbors. -/
theorem exists_estimate_of_wraps (hvalid : p.validate = .ok ()) (h : p.neighbors + 1 = 0) :
    ∃ estimate, InfoFlow.mutualInformation (fewSamples α p) (fewSamples α p) p = .ok estimate ∧
      (fewSamples α p).size ≤ p.neighbors.toNat := by
  have hsize : (fewSamples α p).size = p.minSamples.toNat := Array.size_replicate
  have hneighbors : p.neighbors.toNat = 2 ^ 64 - 1 := by
    have hsum := congrArg UInt64.toNat h
    have hlt := p.neighbors.toNat_lt_size
    rw [UInt64.toNat_add] at hsum
    change (p.neighbors.toNat + 1) % 2 ^ 64 = 0 at hsum
    change p.neighbors.toNat < 2 ^ 64 at hlt
    omega
  have hfloor : ¬ (fewSamples α p).size < p.sampleFloor.toNat := by
    rw [sampleFloor_of_wraps h, hsize]
    exact lt_irrefl _
  refine ⟨(estimate (fewSamples α p) (fewSamples α p) p).1, ?_, ?_⟩
  · rw [mutualInformation_eq, if_neg (neighbors_ne_zero hvalid), if_neg (not_not.mpr rfl), if_neg hfloor]
  · have hlt : p.minSamples.toNat < 2 ^ 64 := p.minSamples.toNat_lt_size
    omega

/-- Parameters ask for more samples than neighbors exactly if a machine word has room for one neighbor
more. With more samples than neighbors, the estimators find all neighbors that they look for. -/
theorem leavesRoom_iff (hvalid : p.validate = .ok ()) :
    (p.LeavesRoom α ↔ p.neighbors.toNat + 1 < 2 ^ 64) ∧
      ∀ n, p.neighbors.toNat < n → FindsNeighbors α p.neighbors.toNat n := by
  refine ⟨⟨fun hroom => ?_, fun hroom => leavesRoom_of_lt (neighbors_lt_sampleFloor hroom)⟩,
    fun n hlt => findsNeighbors_of_lt (one_le_neighbors hvalid) hlt⟩
  by_contra hwraps
  have hzero : p.neighbors + 1 = 0 := by
    have hlt : p.neighbors.toNat < 2 ^ 64 := p.neighbors.toNat_lt_size
    rw [← UInt64.toNat_inj, UInt64.toNat_add]
    change (p.neighbors.toNat + 1) % 2 ^ 64 = 0
    omega
  obtain ⟨estimate, hestimate, hfew⟩ := exists_estimate_of_wraps (α := α) hvalid hzero
  exact absurd (hroom.mutualInformation hestimate) (Nat.not_lt.mpr hfew)

/-- The default parameters look at twenty neighbors among a hundred samples or more. -/
theorem default_leavesRoom : validate {} = .ok () ∧ LeavesRoom Exact {} ∧
    FindsNeighbors Exact 20 100 := by
  have h := leavesRoom_iff (α := Exact) (p := {}) rfl
  exact ⟨rfl, h.1.mpr (by decide), h.2 100 (by decide)⟩

/-- As many neighbors as a machine word can count, among one sample or more. -/
def endlessNeighbors : EstimatorParams := { neighbors := 18446744073709551615, minSamples := 1 }

/-- Three samples, of a side that is not discrete. -/
def threeSamples : Samples Float := ⟨.ofVector [0, 0.5, 2], false⟩

/-- An estimate is made from three samples, none of which has so many neighbors. -/
theorem endlessNeighbors_estimates : endlessNeighbors.validate = .ok () ∧
    (∃ estimate, InfoFlow.mutualInformation threeSamples threeSamples endlessNeighbors =
      .ok estimate) ∧ ¬ endlessNeighbors.neighbors.toNat < threeSamples.size ∧
      ∀ joint : Matrix Float, joint.size = threeSamples.size → ∀ i < joint.size,
        (PointSet.ofMatrix joint).kthNeighborDistance i endlessNeighbors.neighbors.toNat =
          Scalar.infinity := by
  have hsize : threeSamples.size = 3 := rfl
  have hneighbors : endlessNeighbors.neighbors.toNat = 18446744073709551615 := rfl
  have hfloor : endlessNeighbors.sampleFloor.toNat = 1 := by decide
  rw [hneighbors]
  refine ⟨rfl, ⟨(estimate threeSamples threeSamples endlessNeighbors).1, ?_⟩, ?_, ?_⟩
  · rw [mutualInformation_eq, if_neg (by decide), if_neg (not_not.mpr rfl), if_neg ?_]
    rw [hsize, hfloor]
    decide
  · rw [hsize]
    decide
  · intro joint hjoint i hi
    have hs := PointSet.ofMatrix_wellFormed joint
    have hthree : (PointSet.ofMatrix joint).size = 3 := hs.size_eq.trans (hjoint.trans hsize)
    refine PointSet.kthNeighborDistance_of_size_le hs (hs.size_eq ▸ hi) ?_
    rw [hthree]
    decide

section Checked

theorem checkedFloor_of_fits (h : p.neighbors.toNat + 1 < 2 ^ 64) :
    p.checkedFloor = .ok p.sampleFloor := by
  unfold checkedFloor
  rw [wordSum_of_fits h]
  rfl

theorem checkedFloor_of_wraps (h : ¬ p.neighbors.toNat + 1 < 2 ^ 64) :
    p.checkedFloor = .error .wordOverflow := by
  unfold checkedFloor
  rw [wordSum_of_wraps h]
  rfl

theorem checkSizesChecked_of_fits (h : p.neighbors.toNat + 1 < 2 ^ 64) (secret output : Nat) :
    checkSizesChecked secret output p = (checkSizes secret output p).mapError .error := by
  unfold checkSizesChecked
  rw [checkedFloor_of_fits h]
  split_ifs with hlength
  · rw [checkSizes_eq, if_pos hlength]
    rfl
  · rfl

theorem checkSizesChecked_of_wraps (h : ¬ p.neighbors.toNat + 1 < 2 ^ 64) (secret output : Nat) :
    checkSizesChecked secret output p =
      if secret ≠ output then .error (.error (.lengthMismatch secret output))
      else .error (.breakdown .wordOverflow) := by
  unfold checkSizesChecked
  rw [checkedFloor_of_wraps h]
  split_ifs <;> rfl

/-- Sizes pass the check only where the floor is a word. -/
theorem fits_of_checkSizesChecked {secret output : Nat}
    (h : checkSizesChecked secret output p = .ok ()) : p.neighbors.toNat + 1 < 2 ^ 64 := by
  by_contra hwraps
  rw [checkSizesChecked_of_wraps hwraps] at h
  split_ifs at h

theorem mutualInformationChecked_of_fits (h : p.neighbors.toNat + 1 < 2 ^ 64)
    (secret output : Samples α) : mutualInformationChecked secret output p =
      (InfoFlow.mutualInformation secret output p).mapError .error := by
  unfold mutualInformationChecked InfoFlow.mutualInformation
  simp only [checkSizesChecked_of_fits h, Except.mapError_bind]
  rfl

theorem leakageCurveChecked_of_fits (h : p.neighbors.toNat + 1 < 2 ^ 64)
    (secret output : Samples α) (sizes : List Nat) (deltas : List α) (window : Nat)
    (isRelative : Bool) : leakageCurveChecked secret output p sizes deltas window isRelative =
      (InfoFlow.leakageCurve secret output p sizes deltas window isRelative).mapError .error := by
  unfold leakageCurveChecked
  rw [checkedFloor_of_fits h]
  split_ifs with hlength
  · unfold InfoFlow.leakageCurve
    rw [if_pos hlength]
    rfl
  · rfl

theorem reportEntryChecked_of_fits {query : LeakageQuery}
    (h : query.params.neighbors.toNat + 1 < 2 ^ 64) (output : Samples α) :
    Trace.reportEntryChecked query output =
      fun secret => (Trace.reportEntry query output secret).mapError .error := by
  funext secret
  unfold Trace.reportEntryChecked Trace.reportEntry
  rw [checkSizesChecked_of_fits h]
  dsimp only
  cases checkSizes secret.samples.size output.size query.params <;> rfl

theorem leakageChecked_of_fits {query : LeakageQuery}
    (h : query.params.neighbors.toNat + 1 < 2 ^ 64) (t : Trace α) :
    t.leakageChecked query = (t.leakage query).adapt .error := by
  unfold Trace.leakageChecked Trace.leakage
  split_ifs with hempty
  · rfl
  · simp only [ExceptT.adapt_bind, reportEntryChecked_of_fits h, Except.mapM_mapError]
    rfl

/-- A query has a secret, and its entry an answer only where the floor is a word. -/
theorem fits_of_leakageChecked {t : Trace α} {query : LeakageQuery} {report : LeakageReport α}
    (h : t.leakageChecked query = pure report) : query.params.neighbors.toNat + 1 < 2 ^ 64 := by
  unfold Trace.leakageChecked at h
  split_ifs at h with hempty
  · cases h
  obtain ⟨_, _, h⟩ := ExceptT.bind_eq_pure_iff.mp h
  obtain ⟨output, _, h⟩ := ExceptT.bind_eq_pure_iff.mp h
  obtain ⟨secrets, hsecrets, h⟩ := ExceptT.bind_eq_pure_iff.mp h
  obtain ⟨entries, hentries, _⟩ := ExceptT.bind_eq_pure_iff.mp h
  rw [ExceptT.adapt_eq_pure_iff, Queried.mapM_eq_pure_iff] at hsecrets
  have hne : query.secrets ≠ [] := by
    rintro hnil
    exact hempty (by rw [hnil]; rfl)
  obtain ⟨selector, hselector⟩ := List.exists_mem_of_ne_nil _ hne
  obtain ⟨secret, hsecret, _⟩ := hsecrets.exists_of_mem_left hselector
  have hall := Except.mapM_eq_ok_iff.mp (Except.ok.inj hentries)
  obtain ⟨entry, _, hentry⟩ := hall.exists_of_mem_left (List.mem_mergeSort.mpr hsecret)
  obtain ⟨_, hsizes, _⟩ := Except.bind_eq_ok_iff.mp hentry
  exact fits_of_checkSizesChecked hsizes

theorem fits_of_leakageCurveChecked {secret output : Samples α} {sizes : List Nat} {deltas : List α}
    {window : Nat} {isRelative : Bool} {curve : LeakageCurve α}
    (h : leakageCurveChecked secret output p sizes deltas window isRelative = .ok curve) :
    p.neighbors.toNat + 1 < 2 ^ 64 := by
  by_contra hwraps
  unfold leakageCurveChecked at h
  rw [checkedFloor_of_wraps hwraps] at h
  split_ifs at h <;> cases h

/-- Where the floor is checked, whatever parameters there are leave room: an estimate, the answer to a
query and every point of a curve are made from more samples than there are neighbors. -/
structure LeavesRoomChecked (α : Type) [Scalar α] (p : EstimatorParams) : Prop where
  mutualInformation {secret output : Samples α} {estimate : α} :
    mutualInformationChecked secret output p = .ok estimate → p.neighbors.toNat < secret.size
  leakage {t : Trace α} {query : LeakageQuery} {report : LeakageReport α} :
    query.params = p → t.leakageChecked query = pure report → p.neighbors.toNat < report.sampleSize
  leakageCurve {secret output : Samples α} {sizes : List Nat} {deltas : List α} {window : Nat}
    {isRelative : Bool} {curve : LeakageCurve α} {point : CurvePoint α} :
    leakageCurveChecked secret output p sizes deltas window isRelative = .ok curve →
      point ∈ curve.points → p.neighbors.toNat < point.samples

theorem leavesRoomChecked (p : EstimatorParams) : p.LeavesRoomChecked α where
  mutualInformation hestimate := by
    obtain ⟨_, _, hchecked⟩ := Except.bind_eq_ok_iff.mp hestimate
    obtain ⟨_, hsizes, _⟩ := Except.bind_eq_ok_iff.mp hchecked
    have hfits := fits_of_checkSizesChecked hsizes
    rw [mutualInformationChecked_of_fits hfits, Except.mapError_eq_ok_iff] at hestimate
    exact (leavesRoom_of_lt (neighbors_lt_sampleFloor hfits)).mutualInformation hestimate
  leakage hparams hreport := by
    subst hparams
    have hfits := fits_of_leakageChecked hreport
    rw [leakageChecked_of_fits hfits, ExceptT.adapt_eq_pure_iff] at hreport
    exact (leavesRoom_of_lt (neighbors_lt_sampleFloor hfits)).leakage rfl hreport
  leakageCurve hcurve hpoint := by
    have hfits := fits_of_leakageCurveChecked hcurve
    rw [leakageCurveChecked_of_fits hfits, Except.mapError_eq_ok_iff] at hcurve
    exact ((leavesRoom_of_lt (neighbors_lt_sampleFloor hfits)).leakageCurve hcurve hpoint).1

end Checked

end EstimatorParams

end InfoFlow
