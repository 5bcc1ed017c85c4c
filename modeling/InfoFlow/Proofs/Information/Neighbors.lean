import InfoFlow.Information.Neighbors
import InfoFlow.Proofs.Updates
import Mathlib.Order.Nat

namespace InfoFlow.PointSet

variable {α : Type} {s : PointSet α} {c c' : Cursor} {x gap : α} {i j k : Nat}

/-- Every row has one position in the order, which is its rank. -/
structure WellFormed (s : PointSet α) : Prop where
  order_perm : s.order.toList.Perm (List.range s.points.size)
  rank_eq {r i : Nat} : s.order[r]? = some i → s.rank.getD i 0 = r

theorem ofMatrix_wellFormed [Scalar α] (m : Matrix α) : (ofMatrix m).WellFormed := by
  have hperm : (ofMatrix m).order.toList.Perm (List.range m.size) := List.mergeSort_perm _ _
  refine ⟨hperm, fun {r i} hi => ?_⟩
  have hmem : i ∈ (ofMatrix m).order.toList := Array.mem_toList_iff.mpr (Array.mem_of_getElem? hi)
  have hlt : i < m.size := List.mem_range.mp (hperm.subset hmem)
  have hnodup : ((ofMatrix m).order.toList.zipIdx.map Prod.fst).Nodup := by
    rw [List.zipIdx_map_fst]
    exact hperm.nodup_iff.mpr List.nodup_range
  have hupdate : (i, r) ∈ (ofMatrix m).order.toList.zipIdx :=
    List.mem_zipIdx_iff_getElem?.mpr (by simpa using hi)
  have hrank : (ofMatrix m).rank[i]? = some r := by
    refine Updates.getElem?_run_of_mem (fun x hx => ?_) (List.mem_map_of_mem hupdate)
      (by simpa using hlt)
    exact (Prod.mk.inj (List.inj_on_of_nodup_map hnodup hx hupdate rfl)).2
  rw [Array.getD_eq_getD_getElem?, hrank]
  rfl

namespace WellFormed

variable (hs : s.WellFormed)

include hs

theorem size_eq : s.size = s.points.size := by
  have hlength := hs.order_perm.length_eq
  simpa [size] using hlength

theorem lt_size {r : Nat} (h : s.order[r]? = some i) : i < s.size := by
  have hmem := hs.order_perm.subset (Array.mem_toList_iff.mpr (Array.mem_of_getElem? h))
  rw [hs.size_eq]
  exact List.mem_range.mp hmem

/-- A row stands at its rank. -/
theorem order_rank (hi : i < s.size) : s.order[s.rank.getD i 0]? = some i := by
  have hmem : i ∈ s.order.toList := hs.order_perm.mem_iff.mpr (List.mem_range.mpr (hs.size_eq ▸ hi))
  obtain ⟨r, hr⟩ := Array.mem_iff_getElem?.mp (Array.mem_toList_iff.mp hmem)
  rw [hs.rank_eq hr]
  exact hr

theorem rank_lt_size (hi : i < s.size) : s.rank.getD i 0 < s.size :=
  (Array.getElem?_eq_some_iff.mp (hs.order_rank hi)).1

end WellFormed

variable [Scalar α]

section Steps

/-- A stretch of the order. -/
structure Cursor.Within (s : PointSet α) (c : Cursor) : Prop where
  left_le : c.left ≤ c.right
  right_le : c.right ≤ s.size

theorem leftOf_eq_none_iff (hc : c.Within s) : s.leftOf x c = none ↔ c.left = 0 := by
  unfold leftOf
  split
  · rename_i hzero
    exact iff_of_true rfl hzero
  · rename_i hpos
    have hlt : c.left - 1 < s.order.size := by
      have hle := hc.left_le.trans hc.right_le
      unfold size at hle
      omega
    simp [hlt, hpos]

theorem rightOf_eq_none_iff (hc : c.Within s) : s.rightOf x c = none ↔ c.right = s.size := by
  have hle := hc.right_le
  unfold rightOf
  rw [Option.map_eq_none_iff, Array.getElem?_eq_none_iff]
  exact ⟨fun hge => le_antisymm hle hge, ge_of_eq⟩

theorem of_leftOf (h : s.leftOf x c = some (j, gap)) :
    0 < c.left ∧ s.order[c.left - 1]? = some j ∧ gap = x - s.first j := by
  unfold leftOf at h
  split at h
  · cases h
  · rename_i hpos
    obtain ⟨k, hk, heq⟩ := Option.map_eq_some_iff.mp h
    cases heq
    exact ⟨Nat.pos_of_ne_zero hpos, hk, rfl⟩

theorem of_rightOf (h : s.rightOf x c = some (j, gap)) :
    s.order[c.right]? = some j ∧ gap = s.first j - x := by
  obtain ⟨k, hk, heq⟩ := Option.map_eq_some_iff.mp h
  cases heq
  exact ⟨hk, rfl⟩

/-- There is no next row where the stretch is the whole order. -/
theorem next?_eq_none_iff (hc : c.Within s) :
    s.next? x c = none ↔ c.left = 0 ∧ c.right = s.size := by
  rw [← leftOf_eq_none_iff (x := x) hc, ← rightOf_eq_none_iff (x := x) hc]
  unfold next?
  split
  · simp [*]
  · simp [*]
  · simp [*]
  · split <;> simp [*]

/-- The next row is one of the two at the ends of the stretch, where the other one is not nearer. -/
theorem of_next? (h : s.next? x c = some ((j, gap), c')) :
    (s.leftOf x c = some (j, gap) ∧ c' = { c with left := c.left - 1 } ∧
        ∀ r ∈ s.rightOf x c, gap ≤ r.2) ∨
      (s.rightOf x c = some (j, gap) ∧ c' = { c with right := c.right + 1 } ∧
        ∀ l ∈ s.leftOf x c, ¬ l.2 ≤ gap) := by
  unfold next? at h
  split at h
  · cases h
  · rename_i l hl hr
    cases h
    exact .inl ⟨hl, rfl, by simp [hr]⟩
  · rename_i r hl hr
    cases h
    exact .inr ⟨hr, rfl, by simp [hl]⟩
  · rename_i l r hl hr
    split at h
    · rename_i hle
      cases h
      exact .inl ⟨hl, rfl, by simpa [hr] using hle⟩
    · rename_i hnot
      cases h
      exact .inr ⟨hr, rfl, by simpa [hl] using hnot⟩

end Steps

section Walks

/-- A stretch of the order that has row `i` in it. -/
structure Cursor.Around (s : PointSet α) (i : Nat) (c : Cursor) : Prop where
  left_le : c.left ≤ s.rank.getD i 0
  lt_right : s.rank.getD i 0 < c.right
  right_le : c.right ≤ s.size

/-- The rows other than `i` in a stretch around it. -/
def Cursor.visited (c : Cursor) : Nat := c.right - c.left - 1

omit [Scalar α] in
theorem Cursor.Around.within (hc : c.Around s i) : c.Within s :=
  ⟨hc.left_le.trans hc.lt_right.le, hc.right_le⟩

omit [Scalar α] in
theorem Cursor.Around.start (hs : s.WellFormed) (hi : i < s.size) :
    Cursor.Around s i ⟨s.rank.getD i 0, s.rank.getD i 0 + 1⟩ :=
  ⟨le_rfl, Nat.lt_succ_self _, hs.rank_lt_size hi⟩

omit [Scalar α] in
theorem Cursor.Around.visited_lt (hc : c.Around s i) : c.visited < s.size := by
  have hlt := hc.lt_right
  have hle := hc.right_le
  unfold visited
  omega

/-- Where a walk ends by itself, all other rows have been visited. -/
theorem Cursor.Around.visited_eq (hc : c.Around s i) (h : s.next? x c = none) :
    c.visited = s.size - 1 := by
  obtain ⟨hleft, hright⟩ := (next?_eq_none_iff hc.within).mp h
  unfold visited
  omega

/-- A step visits a row other than the one that the stretch is around. -/
theorem Cursor.Around.next (hs : s.WellFormed) (hc : c.Around s i)
    (h : s.next? x c = some ((j, gap), c')) :
    c'.Around s i ∧ c'.visited = c.visited + 1 ∧ j < s.size ∧ j ≠ i := by
  obtain ⟨hleft, hlt, hright⟩ := hc
  rcases of_next? h with ⟨hl, rfl, _⟩ | ⟨hr, rfl, _⟩
  · obtain ⟨hpos, hj, _⟩ := of_leftOf hl
    refine ⟨⟨?_, hlt, hright⟩, ?_, hs.lt_size hj, ?_⟩
    · exact (Nat.sub_le _ _).trans hleft
    · unfold visited
      dsimp only
      omega
    · rintro rfl
      have hrank := hs.rank_eq hj
      omega
  · obtain ⟨hj, _⟩ := of_rightOf hr
    have hbound : c.right < s.size := (Array.getElem?_eq_some_iff.mp hj).1
    refine ⟨⟨hleft, hlt.trans (Nat.lt_succ_self _), hbound⟩, ?_, hs.lt_size hj, ?_⟩
    · unfold visited
      dsimp only
      omega
    · rintro rfl
      have hrank := hs.rank_eq hj
      omega

variable {τ : Type} {visit : τ → Nat → α → Option τ} {t : τ} {I : Nat → τ → Prop} {P : τ → Prop}

/-- What every visit of another row preserves, along with the number of visited rows, holds when a visit
stops the walk, or once all other rows are visited. -/
theorem walkFrom_induct (hs : s.WellFormed)
    (hstep : ∀ n t j gap, I n t → n + 1 < s.size → j < s.size → j ≠ i →
      (∀ t', visit t j gap = some t' → I (n + 1) t') ∧ (visit t j gap = none → P t))
    (hend : ∀ t, I (s.size - 1) t → P t) {fuel : Nat} (hfuel : s.size ≤ fuel + (c.visited + 1))
    (hc : c.Around s i) (ht : I c.visited t) : P (s.walkFrom x visit fuel c t) := by
  induction fuel generalizing c t with
  | zero =>
    have hall : c.visited = s.size - 1 := by
      have hlt := hc.visited_lt
      omega
    exact hend t (hall ▸ ht)
  | succ fuel ih =>
    unfold walkFrom
    split
    · rename_i hnone
      exact hend t (hc.visited_eq hnone ▸ ht)
    · rename_i j gap c' hnext
      obtain ⟨hc', hvisited, hj, hne⟩ := hc.next hs hnext
      obtain ⟨hgo, hstop⟩ := hstep c.visited t j gap ht (hvisited ▸ hc'.visited_lt) hj hne
      split
      · rename_i hvisit
        exact hstop hvisit
      · rename_i t' hvisit
        exact ih (by omega) hc' (hvisited ▸ hgo t' hvisit)

theorem walk_induct (hs : s.WellFormed) (hi : i < s.size) (ht : I 0 t)
    (hstep : ∀ n t j gap, I n t → n + 1 < s.size → j < s.size → j ≠ i →
      (∀ t', visit t j gap = some t' → I (n + 1) t') ∧ (visit t j gap = none → P t))
    (hend : ∀ t, I (s.size - 1) t → P t) : P (s.walk i visit t) := by
  have hstart := Cursor.Around.start hs hi
  have hvisited : Cursor.visited ⟨s.rank.getD i 0, s.rank.getD i 0 + 1⟩ = 0 := by
    unfold Cursor.visited
    dsimp only
    omega
  exact walkFrom_induct hs hstep hend (Nat.le_add_right _ _) hstart (by rwa [hvisited])

end Walks

section Nearest

theorem insertDistance_perm (d : α) (ds : List α) : (insertDistance d ds).Perm (d :: ds) := by
  induction ds with
  | nil => exact .refl _
  | cons first rest ih =>
    unfold insertDistance
    split
    · exact .refl _
    · exact (ih.cons first).trans (.swap d first rest)

/-- The distance to some other row. -/
def IsDistance (s : PointSet α) (i : Nat) (d : α) : Prop := ∃ j < s.size, j ≠ i ∧ d = s.distance i j

/-- The distances that are kept: as many as rows have been visited, but `k` at most. -/
structure Kept (s : PointSet α) (i k visited : Nat) (nearest : List α) : Prop where
  length_eq : nearest.length = min k visited
  isDistance {d : α} : d ∈ nearest → s.IsDistance i d

theorem Kept.insert {kept : List α} {visited : Nat} (hkept : ∀ d ∈ kept, s.IsDistance i d)
    (hlength : kept.length + 1 = min k visited) (hj : j < s.size) (hne : j ≠ i) :
    s.Kept i k visited (insertDistance (s.distance i j) kept) := by
  have hperm := insertDistance_perm (s.distance i j) kept
  refine ⟨?_, fun {d} hd => ?_⟩
  · rw [hperm.length_eq, List.length_cons, hlength]
  · rcases List.mem_cons.mp (hperm.subset hd) with rfl | hd
    · exact ⟨j, hj, hne, rfl⟩
    · exact hkept d hd

/-- A visit keeps one distance more, until there are `k`; and it stops the search only then. -/
theorem visitNearest_kept {nearest : List α} {visited : Nat} (hk : 1 ≤ k)
    (h : s.Kept i k visited nearest) (hj : j < s.size) (hne : j ≠ i) (gap : α) :
    (∀ next, s.visitNearest i k nearest j gap = some next → s.Kept i k (visited + 1) next) ∧
      (s.visitNearest i k nearest j gap = none → k ≤ visited) := by
  obtain ⟨hlength, hdistance⟩ := h
  unfold visitNearest
  cases nearest with
  | nil =>
    refine ⟨fun next hnext => ?_, nofun⟩
    cases hnext
    rw [List.length_nil] at hlength
    have hroom : ([] : List α).length + 1 = min k (visited + 1) := by
      rw [List.length_nil]
      omega
    exact Kept.insert (by simp) hroom hj hne
  | cons worst rest =>
    dsimp only
    by_cases hroom : (worst :: rest).length < k
    · rw [if_pos hroom]
      refine ⟨fun next hnext => ?_, nofun⟩
      cases hnext
      exact Kept.insert (fun d hd => hdistance hd) (by omega) hj hne
    · rw [if_neg hroom]
      have hfull : k ≤ visited := by omega
      rw [List.length_cons] at hlength
      refine ⟨fun next hnext => ?_, fun _ => hfull⟩
      split at hnext
      · cases hnext
      · cases hnext
        split
        · exact Kept.insert
            (fun d hd => hdistance (List.mem_cons_of_mem worst hd)) (by omega) hj hne
        · exact ⟨by rw [List.length_cons]; omega, hdistance⟩

/-- A search keeps as many distances as it can. -/
theorem walk_kept (hs : s.WellFormed) (hi : i < s.size) (hk : 1 ≤ k) :
    s.Kept i k (s.size - 1) (s.walk i (s.visitNearest i k) []) := by
  refine walk_induct (I := s.Kept i k) hs hi ⟨by simp, by simp⟩ ?_ fun _ h => h
  intro visited nearest j gap hkept hroom hj hne
  obtain ⟨hgo, hstop⟩ := visitNearest_kept hk hkept hj hne gap
  refine ⟨hgo, fun hnone => ⟨?_, hkept.isDistance⟩⟩
  have hfull := hstop hnone
  rw [hkept.length_eq]
  omega

/-- Where there are `k` other rows, the `k`-th neighbor is one of them. -/
theorem isDistance_kthNeighborDistance (hs : s.WellFormed) (hi : i < s.size) (hk : 1 ≤ k)
    (hlt : k < s.size) : s.IsDistance i (s.kthNeighborDistance i k) := by
  obtain ⟨hlength, hdistance⟩ := walk_kept hs hi hk
  have hfull : ¬ (s.walk i (s.visitNearest i k) []).length < k := by omega
  unfold kthNeighborDistance
  rw [if_neg (Nat.one_le_iff_ne_zero.mp hk)]
  dsimp only
  rw [if_neg hfull]
  cases hnearest : s.walk i (s.visitNearest i k) [] with
  | nil =>
    rw [hnearest, List.length_nil] at hfull
    omega
  | cons d rest =>
    refine hdistance ?_
    rw [hnearest]
    exact List.mem_cons_self

/-- With fewer than `k` other rows, no distance is found. -/
theorem kthNeighborDistance_of_size_le (hs : s.WellFormed) (hi : i < s.size) (hle : s.size ≤ k) :
    s.kthNeighborDistance i k = Scalar.infinity := by
  have hlength := (walk_kept hs hi (by omega : 1 ≤ k)).length_eq
  unfold kthNeighborDistance
  rw [if_neg (by omega)]
  exact if_pos (by omega)

end Nearest

/-- There are fewer close rows than rows, since a row is not counted itself. -/
theorem countWithin_lt (hs : s.WellFormed) (hi : i < s.size) (radius : α) :
    s.countWithin i radius < s.size := by
  have hle : s.countWithin i radius ≤ s.size - 1 := by
    unfold countWithin
    refine walk_induct (I := fun visited count => count ≤ visited) hs hi le_rfl ?_ fun _ h => h
    intro visited count j gap hcount hroom hj hne
    constructor
    · intro next hnext
      split at hnext
      · cases hnext
      · cases hnext
        split <;> omega
    · intro _
      omega
  omega

theorem countWithin_ofMatrix_lt {m : Matrix α} (hi : i < m.size) (radius : α) :
    (ofMatrix m).countWithin i radius < m.size := by
  have hs := ofMatrix_wellFormed m
  exact (countWithin_lt hs (hi.trans_eq hs.size_eq.symm) radius).trans_eq hs.size_eq

end InfoFlow.PointSet
