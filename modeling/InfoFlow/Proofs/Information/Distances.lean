import InfoFlow.Proofs.Information.Nearest
import InfoFlow.Proofs.Matrix
import InfoFlow.Proofs.Program.Except
import Mathlib.Data.Multiset.Sort
import Mathlib.Topology.MetricSpace.Isometry

namespace InfoFlow

namespace Matrix

/-- A row as a point. -/
noncomputable def point (m : Matrix Exact) (i : ℕ) : Fin m.width → ℝ := fun j =>
  m.rows[i]?.elim 0 fun row => row[j].toReal

/-- The max-norm distance of two rows. -/
noncomputable def gap (m : Matrix Exact) (i j : ℕ) : ℝ := dist (m.point i) (m.point j)

end Matrix

section Searches

/-- The distance from a point to the `k`-th nearest of some others; infinite if there are fewer. -/
noncomputable def kthNearest (d : ℕ → ℕ → ℝ) (s : Finset ℕ) (k i : ℕ) : Exact :=
  (((s.erase i).val.map (d i)).sort)[k - 1]?.elim .infinity .real

/-- How many other points of some are strictly closer than a radius. -/
noncomputable def closer (d : ℕ → ℕ → ℝ) (s : Finset ℕ) (radius : Exact) (i : ℕ) : ℕ :=
  ((s.erase i).filter fun j => Exact.real (d i j) < radius).card

theorem val_erase_range (i n : ℕ) :
    ((Finset.range n).erase i).val = (List.range n).filter (· != i) := by
  have herase : (List.range n).erase i = (List.range n).filter (· != i) :=
    List.nodup_range.erase_eq_filter i
  rw [Finset.erase_val, Finset.range_val, Multiset.range, Multiset.coe_erase, herase]

variable {d d' : ℕ → ℕ → ℝ} {s s' : Finset ℕ} {e : ℕ → ℕ} {i : ℕ}

/-- The only other point is the nearest one. -/
theorem kthNearest_of_erase_eq {j : ℕ} (h : s.erase i = {j}) : kthNearest d s 1 i = .real (d i j) := by
  unfold kthNearest
  rw [h, Finset.singleton_val, Multiset.map_singleton, Multiset.sort_singleton]
  rfl

theorem closer_eq_zero {radius : ℝ} (h : ∀ j ∈ s.erase i, radius ≤ d i j) :
    closer d s (.real radius) i = 0 :=
  Finset.card_eq_zero.mpr (Finset.filter_eq_empty_iff.mpr fun j hj => not_lt.mpr (h j hj))

/-- Points that are numbered in another way have the same distances. -/
structure IsRenumbered (e : ℕ → ℕ) (s s' : Finset ℕ) (d d' : ℕ → ℕ → ℝ) : Prop where
  injOn : Set.InjOn e s'
  image_eq : s'.image e = s
  distance_eq {i j : ℕ} : i ∈ s' → j ∈ s' → d' i j = d (e i) (e j)

namespace IsRenumbered

theorem refl (s : Finset ℕ) (d : ℕ → ℕ → ℝ) : IsRenumbered id s s d d where
  injOn := Set.injOn_id _
  image_eq := Finset.image_id
  distance_eq _ _ := rfl

variable (h : IsRenumbered e s s' d d')

include h

theorem image_erase (hi : i ∈ s') : (s'.erase i).image e = s.erase (e i) := by
  ext j
  rw [← h.image_eq]
  simp only [Finset.mem_image, Finset.mem_erase]
  constructor
  · rintro ⟨l, ⟨hne, hl⟩, rfl⟩
    exact ⟨fun hsame => hne (h.injOn hl hi hsame), l, hl, rfl⟩
  · rintro ⟨hne, l, hl, rfl⟩
    exact ⟨l, ⟨fun hsame => hne (congrArg e hsame), hl⟩, rfl⟩

theorem injOn_erase (i : ℕ) : Set.InjOn e (s'.erase i) :=
  h.injOn.mono (Finset.coe_subset.mpr (Finset.erase_subset i s'))

theorem kthNearest_eq (hi : i ∈ s') (k : ℕ) : kthNearest d' s' k i = kthNearest d s k (e i) := by
  have hdistances : (s'.erase i).val.map (d' i) = (s.erase (e i)).val.map (d (e i)) := by
    rw [← h.image_erase hi, Finset.image_val_of_injOn (h.injOn_erase i), Multiset.map_map]
    exact Multiset.map_congr rfl fun j hj => h.distance_eq hi (Finset.mem_of_mem_erase hj)
  unfold kthNearest
  rw [hdistances]

theorem closer_eq (hi : i ∈ s') (radius : Exact) : closer d' s' radius i = closer d s radius (e i) := by
  unfold closer
  rw [← h.image_erase hi, Finset.filter_image, Finset.card_image_of_injOn]
  · refine congrArg Finset.card (Finset.filter_congr fun j hj => ?_)
    rw [h.distance_eq hi (Finset.mem_of_mem_erase hj)]
  · exact (h.injOn_erase i).mono (Finset.coe_subset.mpr (Finset.filter_subset _ _))

theorem total_eq {f f' : ℕ → Exact} (hf : ∀ i ∈ s', f' i = f (e i)) :
    Exact.total (s'.val.map f') = Exact.total (s.val.map f) := by
  rw [← h.image_eq, Finset.image_val_of_injOn h.injOn, Multiset.map_map]
  exact congrArg Exact.total (Multiset.map_congr rfl hf)

theorem card_eq : s'.card = s.card := by
  rw [← h.image_eq, Finset.card_image_of_injOn h.injOn]

theorem filter {p p' : ℕ → Prop} [DecidablePred p] [DecidablePred p'] (hp : ∀ i ∈ s', p' i ↔ p (e i)) :
    IsRenumbered e (s.filter p) (s'.filter p') d d' where
  injOn := h.injOn.mono (Finset.coe_subset.mpr (Finset.filter_subset _ _))
  image_eq := by
    rw [← h.image_eq, Finset.filter_image]
    exact congrArg (Finset.image e) (Finset.filter_congr hp)
  distance_eq hi hj := h.distance_eq (Finset.mem_of_mem_filter _ hi) (Finset.mem_of_mem_filter _ hj)

theorem joint {g g' : ℕ → ℕ → ℝ} (hg : IsRenumbered e s s' g g') :
    IsRenumbered e s s' (fun i j => max (d i j) (g i j)) fun i j => max (d' i j) (g' i j) where
  injOn := h.injOn
  image_eq := h.image_eq
  distance_eq hi hj := congrArg₂ max (h.distance_eq hi hj) (hg.distance_eq hi hj)

end IsRenumbered

end Searches

section Distances

variable {n : ℕ} {x y : Vector Exact n}

theorem Exact.abs_sub_toReal {a b : Exact} (ha : Scalar.isFinite a = true) (hb : Scalar.isFinite b = true) :
    Scalar.abs (a - b) = .real |a.toReal - b.toReal| := by
  rw [Exact.eq_real_toReal ha, Exact.eq_real_toReal hb, Exact.real_sub, Exact.abs_real]
  rfl

theorem Exact.totalLe_real (a b : ℝ) : Scalar.totalLe (Exact.real a) (Exact.real b) = decide (a ≤ b) := by
  simp [Scalar.totalLe]

/-- In exact arithmetic, the distance of two rows is that of the max-norm. -/
theorem maxDistance_eq_dist (hx : ∀ a ∈ x.toList, Scalar.isFinite a = true)
    (hy : ∀ b ∈ y.toList, Scalar.isFinite b = true) :
    maxDistance x y =
      .real (dist (fun j : Fin n => x[j].toReal) fun j : Fin n => y[j].toReal) := by
  have hentry (j : Fin n) : Scalar.abs (x[j] - y[j]) = .real (dist x[j].toReal y[j].toReal) :=
    Exact.abs_sub_toReal (hx _ (by simp)) (hy _ (by simp))
  have hle : ∃ r : ℝ, maxDistance x y = .real r ∧
      r ≤ dist (fun j : Fin n => x[j].toReal) fun j : Fin n => y[j].toReal := by
    unfold maxDistance
    rcases Scalar.foldl_max_mem ((x.zip y).toList.map fun (a, b) => Scalar.abs (a - b)) 0 with
      hnone | hlargest
    · exact ⟨0, hnone.trans Exact.zero_eq, dist_nonneg⟩
    · obtain ⟨p, hp, hlargest⟩ := List.mem_map.mp hlargest
      obtain ⟨j, hj, rfl⟩ := Vector.mem_iff_getElem.mp (Vector.mem_toList_iff.mp hp)
      rw [Vector.getElem_zip] at hlargest
      have hle := dist_le_pi_dist (fun j : Fin n => x[j].toReal) (fun j : Fin n => y[j].toReal) ⟨j, hj⟩
      exact ⟨_, hlargest.symm.trans (hentry ⟨j, hj⟩), hle⟩
  obtain ⟨r, hr, hle⟩ := hle
  have hzero := (le_maxDistance hx hy).1
  rw [hr, Exact.zero_le_real] at hzero
  rw [hr, le_antisymm hle]
  refine (dist_pi_le_iff hzero).mpr fun j => ?_
  have hj := abs_sub_le_maxDistance hx hy j.isLt
  rw [hr] at hj
  exact Exact.real_le.mp ((hentry j) ▸ hj)

end Distances

namespace PointSet

variable {m : Matrix Exact} {i j k : ℕ}

theorem point_eq (hi : i < m.size) : m.point i = fun c => m.rows[i][c].toReal := by
  unfold Matrix.point
  rw [Array.getElem?_eq_getElem hi]
  rfl

variable (hm : m.IsFinite) (hi : i < m.size)

include hm hi

theorem distance_eq_gap (hj : j < m.size) : (ofMatrix m).distance i j = .real (m.gap i j) := by
  unfold Matrix.gap
  rw [point_eq hi, point_eq hj, distance_eq hi hj]
  exact maxDistance_eq_dist (isFinite_of_mem_row hm hi) (isFinite_of_mem_row hm hj)

theorem otherDistances_eq :
    otherDistances m i = (((List.range m.size).filter (· != i)).map (m.gap i)).map .real := by
  unfold otherDistances
  rw [List.map_map]
  refine List.map_congr_left fun j hj => ?_
  exact distance_eq_gap hm hi (List.mem_range.mp (List.mem_of_mem_filter hj))

/-- A search for the `k`-th neighbor keeps the `k` smallest distances. -/
theorem walk_isSmallest (hk : 1 ≤ k) : IsSmallest k (otherDistances m i)
    ((ofMatrix m).walk i ((ofMatrix m).visitNearest i k) []) := by
  have hs := ofMatrix_wellFormed m
  have hsorted := ofMatrix_sorted hm
  have hi' : i < (ofMatrix m).size := by rwa [size_ofMatrix]
  rw [walk_eq]
  refine IsSmallest.perm ?_ (tour_distances_perm hi)
  exact visitUntil_isSmallest hk (hsorted.pairwise_tour hs hi')
    (fun p hp => hsorted.gap_le_distance hs hi' hp)
    (fun p hp => isNaN_distance hm hi (lt_size_of_mem_tour hi hp)) (isSmallest_nil k) (by simp)

/-- What it finds is the distance of the `k`-th nearest of the other rows. -/
theorem kthNeighborDistance_eq_kthNearest (hk : 1 ≤ k) : (ofMatrix m).kthNeighborDistance i k =
    kthNearest m.gap (Finset.range m.size) k i := by
  set gaps := ((List.range m.size).filter (· != i)).map (m.gap i) with hgaps
  have hsmallest := walk_isSmallest hm hi hk
  rw [otherDistances_eq hm hi, ← hgaps] at hsmallest
  have habs (d : Exact) (hd : d ∈ gaps.map Exact.real) :
      Scalar.isNaN d = false ∧ ∃ x, d = Scalar.abs x := by
    obtain ⟨g, hg, rfl⟩ := List.mem_map.mp hd
    obtain ⟨j, -, rfl⟩ := List.mem_map.mp hg
    have hnonneg : 0 ≤ m.gap i j := dist_nonneg
    exact ⟨(Scalar.isFinite_iff.mp (Exact.isFinite_iff.mpr ⟨_, rfl⟩)).1, .real (m.gap i j),
      by rw [Exact.abs_real, abs_of_nonneg hnonneg]⟩
  have hsort : (gaps.map Exact.real).mergeSort Scalar.totalLe =
      (gaps.mergeSort (· ≤ ·)).map Exact.real := by
    rw [List.map_mergeSort fun a _ b _ => (Exact.totalLe_real a b).symm]
  have hfound := hsmallest.headD_eq hk habs Scalar.infinity
  rw [hsort] at hfound
  unfold kthNeighborDistance kthNearest
  rw [if_neg (Nat.one_le_iff_ne_zero.mp hk), val_erase_range, Multiset.map_coe, ← hgaps, Multiset.coe_sort]
  refine hfound.trans ?_
  rw [List.getElem?_map]
  cases (gaps.mergeSort (· ≤ ·))[k - 1]? <;> rfl

/-- A count finds all rows that are closer than the radius. -/
theorem countWithin_eq_closer (radius : Exact) : (ofMatrix m).countWithin i radius =
    closer m.gap (Finset.range m.size) radius i := by
  have hs := ofMatrix_wellFormed m
  have hsorted := ofMatrix_sorted hm
  have hi' : i < (ofMatrix m).size := by rwa [size_ofMatrix]
  unfold countWithin
  rw [walk_eq, visitUntil_count (hsorted.pairwise_tour hs hi')
    (fun p hp => hsorted.gap_le_distance hs hi' hp), Nat.zero_add,
    (tour_distances_perm hi).countP_eq, otherDistances_eq hm hi, List.map_map, List.countP_map]
  unfold closer
  rw [Finset.card_def, Finset.filter_val, ← Multiset.countP_eq_card_filter, val_erase_range,
    Multiset.coe_countP]
  rfl

end PointSet

namespace Matrix

/-- A matrix with its columns in another order. -/
def permuteColumns {α : Type} (m : Matrix α) (σ : Equiv.Perm (Fin m.width)) : Matrix α :=
  { m with rows := m.rows.map fun row => Vector.ofFn fun j => row[σ j] }

variable {m x y joint : Matrix Exact} {positions : List ℕ}

theorem isFinite_iff_rows {m : Matrix Exact} :
    m.IsFinite ↔ ∀ row ∈ m.rows, ∀ a ∈ row, Scalar.isFinite a = true := by
  unfold IsFinite toLists
  simp only [List.forall_mem_map, Array.mem_toList_iff, Vector.mem_toList_iff]

section Columns

variable (σ : Equiv.Perm (Fin m.width))

theorem size_permuteColumns : (m.permuteColumns σ).size = m.size := Array.size_map ..

theorem isFinite_permuteColumns (hm : m.IsFinite) : (m.permuteColumns σ).IsFinite := by
  rw [isFinite_iff_rows] at hm ⊢
  intro row hrow a ha
  obtain ⟨original, horiginal, rfl⟩ := Array.mem_map.mp hrow
  obtain ⟨j, rfl⟩ := Vector.mem_ofFn.mp ha
  exact hm original horiginal _ (Vector.getElem_mem _)

theorem gap_permuteColumns : (m.permuteColumns σ).gap = m.gap := by
  have hpoint (i : ℕ) : (m.permuteColumns σ).point i = m.point i ∘ σ := by
    funext j
    unfold point permuteColumns
    rw [Array.getElem?_map]
    cases m.rows[i]? with
    | none => rfl
    | some row => exact congrArg Exact.toReal (Vector.getElem_ofFn j.isLt)
  have hle {n : ℕ} (τ : Equiv.Perm (Fin n)) (p q : Fin n → ℝ) : dist (p ∘ τ) (q ∘ τ) ≤ dist p q :=
    (dist_pi_le_iff dist_nonneg).mpr fun j => dist_le_pi_dist p q (τ j)
  funext i j
  unfold gap
  rw [hpoint, hpoint]
  refine le_antisymm (hle σ _ _) ?_
  have hback := hle σ.symm (m.point i ∘ σ) (m.point j ∘ σ)
  rwa [Function.comp_assoc, Function.comp_assoc, Equiv.self_comp_symm] at hback

end Columns

section Sides

/-- The points of matrices side by side are joined. -/
theorem point_zipWith (hsize : x.size = y.size) (layout : Layout) (i : ℕ) :
    point ⟨x.width + y.width, Array.zipWith (· ++ ·) x.rows y.rows, layout⟩ i =
      Fin.append (x.point i) (y.point i) := by
  unfold size at hsize
  funext c
  unfold point
  rw [Array.getElem?_zipWith]
  by_cases hi : i < x.rows.size
  · rw [Array.getElem?_eq_getElem hi, Array.getElem?_eq_getElem (hsize ▸ hi)]
    induction c using Fin.addCases with
    | left j =>
      rw [Fin.append_left]
      exact congrArg Exact.toReal (Vector.getElem_append_left j.isLt)
    | right j =>
      have hright : (x.rows[i] ++ y.rows[i])[x.width + j] = y.rows[i][j] := by
        simp [Vector.getElem_append_right]
      rw [Fin.append_right]
      exact congrArg Exact.toReal hright
  · rw [Array.getElem?_eq_none (not_lt.mp hi), Array.getElem?_eq_none (hsize ▸ not_lt.mp hi)]
    induction c using Fin.addCases with
    | left j => rw [Fin.append_left]; rfl
    | right j => rw [Fin.append_right]; rfl

variable (h : x.beside? y = some joint)

include h

theorem isFinite_of_beside? (hx : x.IsFinite) (hy : y.IsFinite) : joint.IsFinite := by
  unfold IsFinite at hx hy ⊢
  rw [(toLists_beside? h).2]
  intro row hrow a ha
  obtain ⟨i, hi, rfl⟩ := List.mem_iff_getElem.mp hrow
  rw [List.getElem_zipWith] at ha
  rcases List.mem_append.mp ha with ha | ha
  · exact hx _ (List.getElem_mem _) a ha
  · exact hy _ (List.getElem_mem _) a ha

/-- Rows side by side are as far apart as the further ones of their parts. -/
theorem gap_of_beside? (i j : ℕ) : joint.gap i j = max (x.gap i j) (y.gap i j) := by
  have hsize := (toLists_beside? h).1
  unfold beside? at h
  rw [if_pos hsize] at h
  obtain rfl := Option.some.inj h
  unfold gap
  rw [point_zipWith hsize, point_zipWith hsize]
  exact (Fin.appendIsometry x.width y.width).dist_eq (x.point i, y.point i) (x.point j, y.point j)

end Sides

section Rows

theorem isFinite_select (hm : m.IsFinite) (positions : List ℕ) : (m.select positions).IsFinite := by
  rw [isFinite_iff_rows] at hm ⊢
  intro row hrow
  obtain ⟨i, -, hi⟩ := List.mem_filterMap.mp (List.mem_toArray.mp hrow)
  exact hm row (Array.mem_of_getElem? hi)

variable (hpositions : ∀ i ∈ positions, i < m.size)

include hpositions

theorem point_select {i : ℕ} (hi : i < positions.length) :
    (m.select positions).point i = m.point positions[i] := by
  have hrows : (m.select positions).rows[i]? = m.rows[positions[i]]? := by
    unfold select
    rw [List.getElem?_toArray, getElem?_filterMap_of_isSome, List.getElem?_eq_getElem hi]
    · rfl
    · intro j hj
      rw [Array.getElem?_eq_getElem (hpositions j hj)]
      rfl
  unfold point
  rw [hrows]
  rfl

/-- Rows that are picked, each once, are as far apart as they were. -/
theorem isRenumbered_select (hnodup : positions.Nodup) :
    IsRenumbered (fun i => positions.getD i 0) positions.toFinset (Finset.range positions.length)
      m.gap (m.select positions).gap where
  injOn := by
    intro i hi j hj hsame
    rw [Finset.mem_coe, Finset.mem_range] at hi hj
    dsimp only at hsame
    rwa [List.getD_eq_getElem _ _ hi, List.getD_eq_getElem _ _ hj, hnodup.getElem_inj_iff] at hsame
  image_eq := by
    ext j
    simp only [Finset.mem_image, Finset.mem_range, List.mem_toFinset, List.mem_iff_getElem]
    constructor
    · rintro ⟨i, hi, rfl⟩
      exact ⟨i, hi, (List.getD_eq_getElem _ _ hi).symm⟩
    · rintro ⟨i, hi, rfl⟩
      exact ⟨i, hi, List.getD_eq_getElem _ _ hi⟩
  distance_eq := by
    intro i j hi hj
    rw [Finset.mem_range] at hi hj
    unfold gap
    rw [point_select hpositions hi, point_select hpositions hj, List.getD_eq_getElem _ _ hi,
      List.getD_eq_getElem _ _ hj]
    rfl

variable (hm : m.IsFinite) (hnodup : positions.Nodup) {i k : ℕ} (hi : i < positions.length)

include hm hnodup

/-- Searches among rows that are picked are searches among the rows that they were. -/
theorem kthNeighborDistance_select (hk : 1 ≤ k) :
    (PointSet.ofMatrix (m.select positions)).kthNeighborDistance i k =
      kthNearest m.gap positions.toFinset k positions[i] := by
  rw [PointSet.kthNeighborDistance_eq_kthNearest (isFinite_select hm _) (by rwa [size_select hpositions])
    hk, size_select hpositions,
    (isRenumbered_select hpositions hnodup).kthNearest_eq (Finset.mem_range.mpr hi),
    List.getD_eq_getElem _ _ hi]

theorem countWithin_select (radius : Exact) :
    (PointSet.ofMatrix (m.select positions)).countWithin i radius =
      closer m.gap positions.toFinset radius positions[i] := by
  rw [PointSet.countWithin_eq_closer (isFinite_select hm _) (by rwa [size_select hpositions]),
    size_select hpositions, (isRenumbered_select hpositions hnodup).closer_eq (Finset.mem_range.mpr hi),
    List.getD_eq_getElem _ _ hi]

end Rows

section Order

variable (hperm : positions.Perm (List.range m.size))

include hperm

theorem lt_size_of_perm {i : ℕ} (hi : i ∈ positions) : i < m.size :=
  List.mem_range.mp (hperm.mem_iff.mp hi)

theorem size_select_of_perm : (m.select positions).size = m.size := by
  rw [size_select fun _ => lt_size_of_perm hperm, hperm.length_eq, List.length_range]

/-- Rows in another order are as far apart as they were. -/
theorem isRenumbered_of_perm : IsRenumbered (fun i => positions.getD i 0) (Finset.range m.size)
    (Finset.range m.size) m.gap (m.select positions).gap := by
  have hselected := isRenumbered_select (fun _ => lt_size_of_perm hperm)
    (hperm.nodup_iff.mpr List.nodup_range)
  rwa [List.toFinset_eq_of_perm _ _ hperm, List.toFinset_range, hperm.length_eq,
    List.length_range] at hselected

end Order

section Numbers

variable {zs : List Exact}

theorem isFinite_ofVector (h : ∀ z ∈ zs, Scalar.isFinite z = true) : (ofVector zs).IsFinite := by
  rw [isFinite_iff_rows]
  intro row hrow a ha
  obtain ⟨z, hz, rfl⟩ := List.mem_map.mp (List.mem_toArray.mp hrow)
  obtain rfl : a = z := List.mem_singleton.mp (Vector.mem_toList_iff.mpr ha)
  exact h a hz

/-- Rows of one number are as far apart as the numbers. -/
theorem gap_ofVector (i j : ℕ) :
    (ofVector zs).gap i j = |(zs.getD i 0).toReal - (zs.getD j 0).toReal| := by
  have hpoint (i : ℕ) : (ofVector zs).point i = fun _ => (zs.getD i 0).toReal := by
    funext c
    unfold point ofVector
    rw [List.getElem?_toArray, List.getElem?_map, List.getD_eq_getElem?_getD]
    obtain rfl := Fin.fin_one_eq_zero c
    cases zs[i]? with
    | none => exact (congrArg Exact.toReal Exact.zero_eq).symm
    | some z => rfl
  have : Nonempty (Fin (ofVector zs).width) := ⟨(0 : Fin 1)⟩
  unfold gap
  rw [hpoint, hpoint]
  exact dist_pi_const _ _

end Numbers

end Matrix

end InfoFlow
