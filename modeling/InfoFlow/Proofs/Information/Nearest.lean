import InfoFlow.Proofs.Information.Walks

namespace InfoFlow.PointSet

variable {α : Type} [Scalar α]

/-- The max-norm distances from row `i` to the other rows, in the order of the rows. -/
def otherDistances (m : Matrix α) (i : Nat) : List α :=
  ((List.range m.size).filter (· != i)).map ((ofMatrix m).distance i)

section Smallest

/-- The `k` smallest of some distances, the largest of them in front. The others are no smaller. -/
structure IsSmallest (k : Nat) (ds smallest : List α) : Prop where
  length_eq : smallest.length = min k ds.length
  decreasing : smallest.Pairwise fun d e => e ≤ d
  exists_others : ∃ others, ds.Perm (smallest ++ others) ∧ ∀ d ∈ smallest, ∀ e ∈ others, d ≤ e

variable {k : Nat} {ds smallest : List α} {d e worst : α}

theorem mem_insertDistance : e ∈ insertDistance d ds ↔ e = d ∨ e ∈ ds := by
  rw [(insertDistance_perm d ds).mem_iff, List.mem_cons]

theorem isSmallest_nil (k : Nat) : IsSmallest k ([] : List α) [] :=
  ⟨by simp, .nil, [], .nil, by simp⟩

theorem IsSmallest.subset (h : IsSmallest k ds smallest) : smallest ⊆ ds := by
  obtain ⟨-, -, others, hperm, -⟩ := h
  exact fun d hd => hperm.mem_iff.mpr (List.mem_append_left others hd)

theorem IsSmallest.perm {es : List α} (h : IsSmallest k ds smallest) (hperm : ds.Perm es) :
    IsSmallest k es smallest := by
  obtain ⟨hlength, hdecreasing, others, hothers, hle⟩ := h
  exact ⟨hperm.length_eq ▸ hlength, hdecreasing, others, hperm.symm.trans hothers, hle⟩

/-- Once there are `k`, nothing is kept of distances that are no smaller than these. -/
theorem IsSmallest.append {es : List α} (h : IsSmallest k ds smallest) (hfull : k ≤ ds.length)
    (hle : ∀ d ∈ smallest, ∀ e ∈ es, d ≤ e) : IsSmallest k (ds ++ es) smallest := by
  obtain ⟨hlength, hdecreasing, others, hperm, hothers⟩ := h
  refine ⟨?_, hdecreasing, others ++ es, ?_, fun d hd e he => ?_⟩
  · rw [hlength, List.length_append]
    omega
  · rw [← List.append_assoc]
    exact hperm.append_right es
  · exact (List.mem_append.mp he).elim (hothers d hd e) (hle d hd e)

variable [LawfulOrder α]

/-- The first one is the largest. -/
theorem IsSmallest.le_worst (h : IsSmallest k ds (worst :: smallest))
    (hds : ∀ e ∈ ds, Scalar.isNaN e = false) (hd : d ∈ worst :: smallest) : d ≤ worst := by
  rcases List.mem_cons.mp hd with rfl | hmem
  · exact Scalar.le_refl (hds d (h.subset hd))
  · exact (List.pairwise_cons.mp h.decreasing).1 d hmem

theorem pairwise_insertDistance (hd : Scalar.isNaN d = false) (hds : ∀ e ∈ ds, Scalar.isNaN e = false)
    (h : ds.Pairwise fun d e => e ≤ d) : (insertDistance d ds).Pairwise fun d e => e ≤ d := by
  induction ds with
  | nil => exact List.pairwise_singleton _ d
  | cons first rest ih =>
    obtain ⟨hfirst, hrest⟩ := List.pairwise_cons.mp h
    unfold insertDistance
    split
    · rename_i hle
      refine .cons (fun e he => ?_) h
      rcases List.mem_cons.mp he with rfl | he
      · exact hle
      · exact LawfulOrder.le_trans (hfirst e he) hle
    · rename_i hnot
      refine .cons (fun e he => ?_) (ih (fun e he => hds e (List.mem_cons_of_mem first he)) hrest)
      rcases mem_insertDistance.mp he with rfl | he
      · exact Scalar.le_of_lt (Scalar.lt_of_not_le (hds first List.mem_cons_self) hd hnot)
      · exact hfirst e he

/-- As long as there are fewer than `k` distances, the next one is kept. -/
theorem IsSmallest.insert (h : IsSmallest k ds smallest) (hds : ∀ e ∈ ds, Scalar.isNaN e = false)
    (hd : Scalar.isNaN d = false) (hroom : ds.length < k) :
    IsSmallest k (ds ++ [d]) (insertDistance d smallest) := by
  obtain ⟨hlength, hdecreasing, others, hperm, -⟩ := h
  have hcount := hperm.length_eq
  rw [List.length_append] at hcount
  obtain rfl : others = [] := List.eq_nil_of_length_eq_zero (by omega)
  rw [List.append_nil] at hperm
  have hinsert := insertDistance_perm d smallest
  refine ⟨?_, pairwise_insertDistance hd (fun e he => hds e (hperm.mem_iff.mpr he)) hdecreasing,
    [], ?_, by simp⟩
  · rw [hinsert.length_eq, List.length_cons, List.length_append, List.length_singleton]
    omega
  · rw [List.append_nil]
    exact (List.perm_append_singleton d ds).trans ((hperm.cons d).trans hinsert.symm)

/-- A smaller distance takes the place of the largest one. -/
theorem IsSmallest.replace (h : IsSmallest k ds (worst :: smallest))
    (hds : ∀ e ∈ ds, Scalar.isNaN e = false) (hd : Scalar.isNaN d = false) (hfull : k ≤ ds.length)
    (hlt : d < worst) : IsSmallest k (ds ++ [d]) (insertDistance d smallest) := by
  obtain ⟨hlength, hdecreasing, others, hperm, hothers⟩ := h
  obtain ⟨hworst, hrest⟩ := List.pairwise_cons.mp hdecreasing
  have hinsert := insertDistance_perm d smallest
  have hnumber : ∀ e ∈ smallest, Scalar.isNaN e = false := fun e he =>
    hds e (hperm.mem_iff.mpr (by simp [he]))
  refine ⟨?_, pairwise_insertDistance hd hnumber hrest, worst :: others, ?_, fun e he f hf => ?_⟩
  · rw [List.length_cons] at hlength
    rw [hinsert.length_eq, List.length_cons, List.length_append, List.length_singleton]
    omega
  · calc List.Perm (ds ++ [d]) (d :: ds) := List.perm_append_singleton d ds
      List.Perm _ (d :: worst :: (smallest ++ others)) := hperm.cons d
      List.Perm _ (worst :: (d :: smallest ++ others)) := .swap worst d _
      List.Perm _ (d :: smallest ++ worst :: others) := List.perm_middle.symm
      List.Perm _ (insertDistance d smallest ++ worst :: others) := hinsert.symm.append_right _
  · have hle : e ≤ worst := by
      rcases mem_insertDistance.mp he with rfl | he
      · exact Scalar.le_of_lt hlt
      · exact hworst e he
    rcases List.mem_cons.mp hf with rfl | hf
    · exact hle
    · exact LawfulOrder.le_trans hle (hothers worst List.mem_cons_self f hf)

end Smallest

section Search

variable {s : PointSet α} {i j k : Nat} {ds nearest : List α}

/-- A visit has the `k` smallest distances again, with that to the row it visits. It stops the search where
there are `k` and none of them is larger than the gap. -/
theorem visitNearest_isSmallest [LawfulOrder α] (hk : 1 ≤ k) (h : IsSmallest k ds nearest)
    (hds : ∀ e ∈ ds, Scalar.isNaN e = false) (hd : Scalar.isNaN (s.distance i j) = false) (gap : α) :
    (∀ next, s.visitNearest i k nearest j gap = some next →
        IsSmallest k (ds ++ [s.distance i j]) next) ∧
      (s.visitNearest i k nearest j gap = none → k ≤ ds.length ∧ ∀ d ∈ nearest, d ≤ gap) := by
  have hlength := h.length_eq
  unfold visitNearest
  cases nearest with
  | nil =>
    rw [List.length_nil] at hlength
    refine ⟨fun next hnext => ?_, nofun⟩
    cases hnext
    exact h.insert hds hd (by omega)
  | cons worst rest =>
    dsimp only
    by_cases hroom : (worst :: rest).length < k
    · rw [if_pos hroom]
      refine ⟨fun next hnext => ?_, nofun⟩
      cases hnext
      exact h.insert hds hd (by omega)
    · rw [if_neg hroom]
      have hfull : k ≤ ds.length := by omega
      have hnumber := hds worst (h.subset List.mem_cons_self)
      split
      · rename_i hstop
        exact ⟨nofun, fun _ => ⟨hfull, fun d hd => LawfulOrder.le_trans (h.le_worst hds hd) hstop⟩⟩
      · refine ⟨fun next hnext => ?_, nofun⟩
        cases hnext
        split
        · rename_i hlt
          exact h.replace hds hd hfull hlt
        · rename_i hnot
          refine h.append hfull fun d hmem e he => ?_
          rw [List.mem_singleton.mp he]
          exact LawfulOrder.le_trans (h.le_worst hds hmem) (Scalar.le_of_not_lt hd hnumber hnot)

/-- No row that is left is closer than the next gap. -/
theorem le_distances_of_le_gap [LawfulOrder α] {p : Nat × α} {ps : List (Nat × α)} {radius : α}
    (hsorted : (p :: ps).Pairwise fun p q => p.2 ≤ q.2)
    (hle : ∀ q ∈ p :: ps, q.2 ≤ s.distance i q.1) (hgap : radius ≤ p.2) :
    ∀ d ∈ (p :: ps).map fun q => s.distance i q.1, radius ≤ d := by
  intro d hd
  obtain ⟨q, hq, rfl⟩ := List.mem_map.mp hd
  have hfirst : radius ≤ q.2 := by
    rcases List.mem_cons.mp hq with rfl | hmem
    · exact hgap
    · exact LawfulOrder.le_trans hgap ((List.pairwise_cons.mp hsorted).1 q hmem)
  exact LawfulOrder.le_trans hfirst (hle q hq)

/-- A search through rows in the order of their gaps ends with the `k` smallest distances of all rows, even if
it does not visit all of them. -/
theorem visitUntil_isSmallest [LawfulOrder α] (hk : 1 ≤ k) {ps : List (Nat × α)}
    (hsorted : ps.Pairwise fun p q => p.2 ≤ q.2) (hle : ∀ p ∈ ps, p.2 ≤ s.distance i p.1)
    (hps : ∀ p ∈ ps, Scalar.isNaN (s.distance i p.1) = false) (h : IsSmallest k ds nearest)
    (hds : ∀ e ∈ ds, Scalar.isNaN e = false) :
    IsSmallest k (ds ++ ps.map fun p => s.distance i p.1)
      (visitUntil (s.visitNearest i k) nearest ps) := by
  induction ps generalizing ds nearest with
  | nil => rwa [List.map_nil, List.append_nil]
  | cons p ps ih =>
    obtain ⟨hgo, hstop⟩ := visitNearest_isSmallest hk h hds (hps p List.mem_cons_self) p.2
    unfold visitUntil
    split
    · rename_i hnone
      obtain ⟨hfull, hgap⟩ := hstop hnone
      exact h.append hfull fun d hd => le_distances_of_le_gap hsorted hle (hgap d hd)
    · rename_i next hnext
      have hnumbers : ∀ e ∈ ds ++ [s.distance i p.1], Scalar.isNaN e = false := by
        simpa [or_imp, forall_and] using ⟨hds, hps p List.mem_cons_self⟩
      have hall := ih hsorted.of_cons (fun q hq => hle q (List.mem_cons_of_mem p hq))
        (fun q hq => hps q (List.mem_cons_of_mem p hq)) (hgo next hnext) hnumbers
      rwa [List.append_assoc] at hall

/-- A count of rows in the order of their gaps is that of all rows, even if it does not visit all of them. -/
theorem visitUntil_count [LawfulOrder α] {radius : α} {ps : List (Nat × α)}
    (hsorted : ps.Pairwise fun p q => p.2 ≤ q.2) (hle : ∀ p ∈ ps, p.2 ≤ s.distance i p.1) (n : Nat) :
    visitUntil (fun count j gap =>
        if radius ≤ gap then none
        else some (if s.distance i j < radius then count + 1 else count)) n ps =
      n + (ps.map fun p => s.distance i p.1).countP (· < radius) := by
  induction ps generalizing n with
  | nil => rfl
  | cons p ps ih =>
    unfold visitUntil
    by_cases hstop : radius ≤ p.2
    · rw [if_pos hstop]
      have hnone : ∀ d ∈ (p :: ps).map fun q => s.distance i q.1, ¬ decide (d < radius) = true := by
        intro d hd hlt
        have hfar := le_distances_of_le_gap hsorted hle hstop d hd
        exact Scalar.not_le_of_lt (of_decide_eq_true hlt) hfar
      rw [List.countP_eq_zero.mpr hnone, Nat.add_zero]
    · rw [if_neg hstop]
      dsimp only
      rw [ih hsorted.of_cons fun q hq => hle q (List.mem_cons_of_mem p hq), List.map_cons, List.countP_cons]
      simp only [decide_eq_true_eq]
      split <;> omega

end Search

section Sorted

variable {k : Nat} {ds smallest : List α}

/-- The smallest of some absolute values are the first ones in the sorted list of them, since equal ones are
the same. -/
theorem IsSmallest.mergeSort_eq [LawfulOrder α] [LawfulGaps α] (h : IsSmallest k ds smallest)
    (habs : ∀ d ∈ ds, Scalar.isNaN d = false ∧ ∃ x, d = Scalar.abs x) :
    ∃ others, ds.mergeSort Scalar.totalLe = smallest.reverse ++ others := by
  obtain ⟨-, hdecreasing, others, hperm, hle⟩ := h
  have hothers : others ⊆ ds := fun d hd => hperm.mem_iff.mpr (List.mem_append_right smallest hd)
  have hsorted : (ds.mergeSort Scalar.totalLe).Pairwise (· ≤ ·) :=
    Scalar.pairwise_mergeSort_totalLe id fun d hd => (habs d hd).1
  have hrest : (others.mergeSort Scalar.totalLe).Pairwise (· ≤ ·) :=
    Scalar.pairwise_mergeSort_totalLe id fun d hd => (habs d (hothers hd)).1
  have hparts : (smallest.reverse ++ others.mergeSort Scalar.totalLe).Pairwise (· ≤ ·) := by
    refine List.pairwise_append.mpr ⟨List.pairwise_reverse.mpr hdecreasing, hrest, fun d hd e he => ?_⟩
    exact hle d (List.mem_reverse.mp hd) e (List.mem_mergeSort.mp he)
  have hpartsperm : (ds.mergeSort Scalar.totalLe).Perm
      (smallest.reverse ++ others.mergeSort Scalar.totalLe) :=
    calc List.Perm (ds.mergeSort Scalar.totalLe) ds := List.mergeSort_perm ds _
      List.Perm _ (smallest ++ others) := hperm
      List.Perm _ (smallest.reverse ++ others.mergeSort Scalar.totalLe) :=
        (List.reverse_perm smallest).symm.append (List.mergeSort_perm others _).symm
  refine ⟨_, hpartsperm.eq_of_pairwise (fun d e hd he hde hed => ?_) hsorted hparts⟩
  obtain ⟨x, rfl⟩ := (habs d (List.mem_mergeSort.mp hd)).2
  obtain ⟨y, rfl⟩ := (habs e (List.mem_mergeSort.mp (hpartsperm.mem_iff.mpr he))).2
  exact LawfulGaps.abs_antisymm hde hed

/-- The largest of the `k` smallest stands at position `k` of the sorted list, if there are `k` of them. -/
theorem IsSmallest.headD_eq [LawfulOrder α] [LawfulGaps α] (h : IsSmallest k ds smallest) (hk : 1 ≤ k)
    (habs : ∀ d ∈ ds, Scalar.isNaN d = false ∧ ∃ x, d = Scalar.abs x) (default : α) :
    (if smallest.length < k then default else smallest.headD default) =
      (ds.mergeSort Scalar.totalLe)[k - 1]?.getD default := by
  have hlength := h.length_eq
  by_cases hfew : smallest.length < k
  · have hbeyond : (ds.mergeSort Scalar.totalLe).length ≤ k - 1 := by
      rw [List.length_mergeSort]
      omega
    rw [if_pos hfew, List.getElem?_eq_none hbeyond, Option.getD_none]
  · obtain ⟨others, hsort⟩ := h.mergeSort_eq habs
    rw [if_neg hfew, hsort]
    cases smallest with
    | nil => exact absurd hk (by simpa using hfew)
    | cons worst rest =>
      rw [List.length_cons] at hlength hfew
      have hposition : k - 1 = rest.reverse.length := by
        rw [List.length_reverse]
        omega
      rw [List.reverse_cons, List.append_assoc, hposition, List.getElem?_append_right le_rfl, Nat.sub_self]
      rfl

end Sorted

section Matrices

variable {m : Matrix α} {i j : Nat}

theorem lt_size_of_mem_tour (hi : i < m.size) {p : Nat × α} (hp : p ∈ (ofMatrix m).tour i) :
    p.1 < m.size := by
  have hi' : i < (ofMatrix m).size := by rwa [size_ofMatrix]
  have hmem := (tour_perm (ofMatrix_wellFormed m) hi').subset (List.mem_map_of_mem hp)
  rw [size_ofMatrix] at hmem
  exact List.mem_range.mp (List.mem_of_mem_filter hmem)

/-- A tour has the distances to all other rows. -/
theorem tour_distances_perm (hi : i < m.size) :
    (((ofMatrix m).tour i).map fun p => (ofMatrix m).distance i p.1).Perm (otherDistances m i) := by
  have hi' : i < (ofMatrix m).size := by rwa [size_ofMatrix]
  have hperm := (tour_perm (ofMatrix_wellFormed m) hi').map ((ofMatrix m).distance i)
  rwa [List.map_map, size_ofMatrix] at hperm

variable [LawfulScalar α] [LawfulOrder α] [LawfulBounds α] [LawfulGaps α]

theorem isNaN_distance (hm : m.IsFinite) (hi : i < m.size) (hj : j < m.size) :
    Scalar.isNaN ((ofMatrix m).distance i j) = false :=
  (LawfulBounds.isNaN_of_le (sub_firstOf_le_distance hm hi hj).1).2

/-- The distance to the `k`-th neighbor is the `k`-th of the distances to all other rows in increasing order,
and infinite if there are fewer than `k` of them. -/
theorem kthNeighborDistance_ofMatrix (hm : m.IsFinite) (hi : i < m.size) (k : Nat) :
    (ofMatrix m).kthNeighborDistance i k =
      if k = 0 then 0
      else ((otherDistances m i).mergeSort Scalar.totalLe)[k - 1]?.getD Scalar.infinity := by
  have hs := ofMatrix_wellFormed m
  have hsorted := ofMatrix_sorted hm
  have hi' : i < (ofMatrix m).size := by rwa [size_ofMatrix]
  unfold kthNeighborDistance
  split
  · rfl
  · rename_i hk
    have hsearch : IsSmallest k (otherDistances m i)
        ((ofMatrix m).walk i ((ofMatrix m).visitNearest i k) []) := by
      rw [walk_eq]
      refine IsSmallest.perm ?_ (tour_distances_perm hi)
      exact visitUntil_isSmallest (by omega) (hsorted.pairwise_tour hs hi')
        (fun p hp => hsorted.gap_le_distance hs hi' hp)
        (fun p hp => isNaN_distance hm hi (lt_size_of_mem_tour hi hp)) (isSmallest_nil k) (by simp)
    refine hsearch.headD_eq (by omega) (fun d hd => ?_) Scalar.infinity
    obtain ⟨j, hj, rfl⟩ := List.mem_map.mp hd
    have hj : j < m.size := List.mem_range.mp (List.mem_of_mem_filter hj)
    refine ⟨isNaN_distance hm hi hj, ?_⟩
    rw [distance_eq hi hj]
    exact maxDistance_eq_abs _ _

/-- Four points in the plane, two of which are the same. -/
def pointsWithTwins : Matrix Float := ⟨2, #[#v[0, 0], #v[1, 2], #v[3, 1], #v[3, 1]], .byRow⟩

/-- From the first point, the twins are the second neighbor and the third. -/
theorem kthNeighborDistance_twins : pointsWithTwins.IsFinite ∧ 0 < pointsWithTwins.size ∧
    (ofMatrix pointsWithTwins).kthNeighborDistance 0 1 = 2 ∧
    (ofMatrix pointsWithTwins).kthNeighborDistance 0 2 = 3 ∧
    (ofMatrix pointsWithTwins).kthNeighborDistance 0 3 = 3 ∧
    (ofMatrix pointsWithTwins).kthNeighborDistance 0 4 = Scalar.infinity := by
  have hfinite : pointsWithTwins.IsFinite := by
    unfold Matrix.IsFinite
    decide +kernel
  have hsorted : (otherDistances pointsWithTwins 0).mergeSort Scalar.totalLe = [2, 3, 3] := by
    rw [List.mergeSort_of_pairwise (by decide +kernel)]
    decide +kernel
  have hkth := kthNeighborDistance_ofMatrix hfinite (i := 0) (by decide)
  rw [hsorted] at hkth
  exact ⟨hfinite, by decide, hkth 1, hkth 2, hkth 3, hkth 4⟩

/-- The rows within a radius are all other rows that are strictly closer. -/
theorem countWithin_ofMatrix (hm : m.IsFinite) (hi : i < m.size) (radius : α) :
    (ofMatrix m).countWithin i radius = (otherDistances m i).countP (· < radius) := by
  have hs := ofMatrix_wellFormed m
  have hsorted := ofMatrix_sorted hm
  have hi' : i < (ofMatrix m).size := by rwa [size_ofMatrix]
  unfold countWithin
  rw [walk_eq, visitUntil_count (hsorted.pairwise_tour hs hi')
    (fun p hp => hsorted.gap_le_distance hs hi' hp), Nat.zero_add]
  exact (tour_distances_perm hi).countP_eq _

/-- The twins are not within their distance, but within any larger one. -/
theorem countWithin_twins : pointsWithTwins.IsFinite ∧ 0 < pointsWithTwins.size ∧
    (ofMatrix pointsWithTwins).countWithin 0 0 = 0 ∧
    (ofMatrix pointsWithTwins).countWithin 0 3 = 1 ∧
    (ofMatrix pointsWithTwins).countWithin 0 Scalar.infinity = 3 := by
  have hfinite : pointsWithTwins.IsFinite := by
    unfold Matrix.IsFinite
    decide +kernel
  have hcount := countWithin_ofMatrix hfinite (i := 0) (by decide)
  refine ⟨hfinite, by decide, (hcount 0).trans ?_, (hcount 3).trans ?_,
    (hcount Scalar.infinity).trans ?_⟩ <;>
  decide +kernel

end Matrices

end InfoFlow.PointSet
