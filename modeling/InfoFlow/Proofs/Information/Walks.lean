import InfoFlow.Proofs.Information.Neighbors
import InfoFlow.Proofs.Scalar.Gaps

namespace InfoFlow

variable {α : Type} [Scalar α]

/-- A matrix without NaNs and infinities. -/
def Matrix.IsFinite (m : Matrix α) : Prop :=
  ∀ row ∈ m.toLists, ∀ x ∈ row, Scalar.isFinite x = true

namespace Scalar

variable [LawfulOrder α]

/-- The largest of some numbers is no smaller than any of them. -/
theorem le_foldl_max {xs : List α} {start : α} (hstart : isNaN start = false)
    (hxs : ∀ x ∈ xs, isNaN x = false) :
    start ≤ xs.foldl max start ∧ ∀ x ∈ xs, x ≤ xs.foldl max start := by
  induction xs generalizing start with
  | nil => exact ⟨le_refl hstart, by simp⟩
  | cons x xs ih =>
    have hx := hxs x List.mem_cons_self
    have hmax : isNaN (max start x) = false := by
      rcases max_eq_or start x with h | h <;> rwa [h]
    obtain ⟨hfirst, hrest⟩ := ih hmax fun y hy => hxs y (List.mem_cons_of_mem x hy)
    refine ⟨LawfulOrder.le_trans (le_max_left x hstart) hfirst, fun y hy => ?_⟩
    rcases List.mem_cons.mp hy with rfl | hy
    · exact LawfulOrder.le_trans (le_max_right start hx) hfirst
    · exact hrest y hy

end Scalar

section Distances

variable {n : Nat} {x y : Vector α n}

theorem mem_differences {d : α} (hd : d ∈ (x.zip y).toList.map fun (a, b) => Scalar.abs (a - b)) :
    ∃ a ∈ x.toList, ∃ b ∈ y.toList, d = Scalar.abs (a - b) := by
  obtain ⟨⟨a, b⟩, hab, rfl⟩ := List.mem_map.mp hd
  rw [Vector.toList_zip] at hab
  exact ⟨a, (List.of_mem_zip hab).1, b, (List.of_mem_zip hab).2, rfl⟩

/-- A distance is the absolute value of something. -/
theorem maxDistance_eq_abs [LawfulGaps α] (x y : Vector α n) : ∃ z, maxDistance x y = Scalar.abs z := by
  unfold maxDistance
  rcases Scalar.foldl_max_mem ((x.zip y).toList.map fun (a, b) => Scalar.abs (a - b)) 0 with h | h
  · exact ⟨0, h.trans LawfulGaps.abs_zero.symm⟩
  · obtain ⟨a, _, b, _, h⟩ := mem_differences h
    exact ⟨a - b, h⟩

variable [LawfulOrder α] [LawfulBounds α] [LawfulGaps α]
  (hx : ∀ a ∈ x.toList, Scalar.isFinite a = true) (hy : ∀ b ∈ y.toList, Scalar.isFinite b = true)

include hx hy

/-- The distance of two rows is not smaller than 0, nor than any of their differences. -/
theorem le_maxDistance : 0 ≤ maxDistance x y ∧
    ∀ d ∈ (x.zip y).toList.map fun (a, b) => Scalar.abs (a - b), d ≤ maxDistance x y := by
  refine Scalar.le_foldl_max LawfulOrder.isNaN_zero fun d hd => ?_
  obtain ⟨a, ha, b, hb, rfl⟩ := mem_differences hd
  exact Scalar.isNaN_abs_sub (hx a ha) (hy b hb)

theorem abs_sub_le_maxDistance {j : Nat} (hj : j < n) : Scalar.abs (x[j] - y[j]) ≤ maxDistance x y := by
  refine (le_maxDistance hx hy).2 _ (List.mem_map.mpr ⟨(x[j], y[j]), ?_, rfl⟩)
  rw [Vector.mem_toList_iff, ← Vector.getElem_zip (h := by omega)]
  exact Vector.getElem_mem _

end Distances

namespace PointSet

variable {s : PointSet α} {c c' : Cursor} {x gap : α} {i j k r fuel : Nat}

section Sorted

theorem distance_eq (hi : i < s.points.rows.size) (hj : j < s.points.rows.size) :
    s.distance i j = maxDistance s.points.rows[i] s.points.rows[j] := by
  unfold distance
  rw [Array.getElem?_eq_getElem hi, Array.getElem?_eq_getElem hj]

/-- Rows that are sorted by their first entries, which are finite and, in any two rows, no further apart
than the rows. -/
structure Sorted (s : PointSet α) : Prop where
  isFinite_first (i : Nat) : Scalar.isFinite (s.first i) = true
  first_le {r r' i j : Nat} : s.order[r]? = some i → s.order[r']? = some j → r ≤ r' →
    s.first i ≤ s.first j
  sub_le_distance {i j : Nat} : i < s.size → j < s.size → s.first i - s.first j ≤ s.distance i j
  sub_le_distance_comm {i j : Nat} : i < s.size → j < s.size → s.first j - s.first i ≤ s.distance i j

variable {m : Matrix α}

theorem size_ofMatrix (m : Matrix α) : (ofMatrix m).size = m.size := (ofMatrix_wellFormed m).size_eq

theorem firstOf_eq (hwidth : 0 < m.width) (hi : i < m.rows.size) : firstOf m i = m.rows[i][0] := by
  unfold firstOf
  rw [dif_pos hwidth, Array.getElem?_eq_getElem hi]
  rfl

theorem isFinite_of_mem_row (hm : m.IsFinite) (hi : i < m.rows.size) :
    ∀ a ∈ m.rows[i].toList, Scalar.isFinite a = true :=
  hm _ (List.mem_map_of_mem (Array.mem_toList_iff.mpr (Array.getElem_mem hi)))

theorem isFinite_firstOf [LawfulBounds α] (hm : m.IsFinite) (i : Nat) :
    Scalar.isFinite (firstOf m i) = true := by
  by_cases hwidth : 0 < m.width
  · by_cases hi : i < m.rows.size
    · rw [firstOf_eq hwidth hi]
      exact isFinite_of_mem_row hm hi _ (by simp)
    · unfold firstOf
      rw [dif_pos hwidth, Array.getElem?_eq_none (by omega)]
      exact Scalar.isFinite_zero
  · unfold firstOf
    rw [dif_neg hwidth]
    exact Scalar.isFinite_zero

variable [LawfulScalar α] [LawfulOrder α] [LawfulBounds α] [LawfulGaps α]

/-- The gap between the first entries of two rows is no larger than the distance. -/
theorem sub_firstOf_le_distance (hm : m.IsFinite) (hi : i < m.rows.size) (hj : j < m.rows.size) :
    firstOf m i - firstOf m j ≤ (ofMatrix m).distance i j ∧
      firstOf m j - firstOf m i ≤ (ofMatrix m).distance i j := by
  have hdistance : (ofMatrix m).distance i j = maxDistance m.rows[i] m.rows[j] := distance_eq hi hj
  have hfinite := isFinite_firstOf hm
  have hrowi := isFinite_of_mem_row hm hi
  have hrowj := isFinite_of_mem_row hm hj
  rw [hdistance]
  by_cases hwidth : 0 < m.width
  · have hle := abs_sub_le_maxDistance hrowi hrowj hwidth
    rw [← firstOf_eq hwidth hi, ← firstOf_eq hwidth hj] at hle
    exact ⟨LawfulOrder.le_trans (LawfulGaps.sub_le_abs (hfinite i) (hfinite j)) hle,
      LawfulOrder.le_trans (LawfulGaps.sub_le_abs_comm (hfinite i) (hfinite j)) hle⟩
  · -- rows without columns have no first entries, but all the same gap
    have hfirst (i : Nat) : firstOf m i = 0 := dif_neg hwidth
    have hzero : (0 - 0 : α) ≤ 0 :=
      (LawfulOrder.beq_iff_le_le.mp (LawfulScalar.sub_self_beq Scalar.isFinite_zero)).1
    have hle := LawfulOrder.le_trans hzero (le_maxDistance hrowi hrowj).1
    rw [hfirst i, hfirst j]
    exact ⟨hle, hle⟩

/-- The rows of a matrix of finite numbers are sorted. -/
theorem ofMatrix_sorted (hm : m.IsFinite) : (ofMatrix m).Sorted := by
  have hfinite := isFinite_firstOf hm
  have hgap {i j : Nat} (hi : i < (ofMatrix m).size) (hj : j < (ofMatrix m).size) := by
    rw [size_ofMatrix] at hi hj
    exact sub_firstOf_le_distance hm hi hj
  constructor
  case isFinite_first => exact hfinite
  case first_le =>
    intro r r' i j hi hj hle
    have hnumber {i : Nat} : Scalar.isNaN (firstOf m i) = false :=
      (Scalar.isFinite_iff.mp (hfinite i)).1
    have hsorted : (ofMatrix m).order.toList.Pairwise fun i j => firstOf m i ≤ firstOf m j :=
      Scalar.pairwise_mergeSort_totalLe (firstOf m) fun _ _ => hnumber
    rcases hle.eq_or_lt with rfl | hlt
    · obtain rfl : i = j := Option.some.inj (hi.symm.trans hj)
      exact Scalar.le_refl hnumber
    · rw [← Array.getElem?_toList] at hi hj
      obtain ⟨hr, rfl⟩ := List.getElem?_eq_some_iff.mp hi
      obtain ⟨hr', rfl⟩ := List.getElem?_eq_some_iff.mp hj
      exact List.pairwise_iff_getElem.mp hsorted r r' hr hr' hlt
  case sub_le_distance => exact fun hi hj => (hgap hi hj).1
  case sub_le_distance_comm => exact fun hi hj => (hgap hi hj).2

end Sorted

section Tour

/-- The rows that up to `fuel` steps outwards from a stretch lead to, with the gaps to them. -/
def outwards (s : PointSet α) (x : α) : Nat → Cursor → List (Nat × α)
  | 0, _ => []
  | fuel + 1, c =>
    match s.next? x c with
    | none => []
    | some (p, c) => p :: s.outwards x fuel c

/-- All rows that a walk from row `i` leads to, if no visit stops it. -/
def tour (s : PointSet α) (i : Nat) : List (Nat × α) :=
  s.outwards (s.first i) s.size ⟨s.rank.getD i 0, s.rank.getD i 0 + 1⟩

omit [Scalar α] in
/-- Visits rows in their order, until a visit answers none. -/
def visitUntil {τ : Type} (visit : τ → Nat → α → Option τ) : τ → List (Nat × α) → τ
  | t, [] => t
  | t, (j, gap) :: ps =>
    match visit t j gap with
    | none => t
    | some t => visitUntil visit t ps

theorem walkFrom_eq {τ : Type} {visit : τ → Nat → α → Option τ} (t : τ) :
    s.walkFrom x visit fuel c t = visitUntil visit t (s.outwards x fuel c) := by
  induction fuel generalizing c t with
  | zero => rfl
  | succ fuel ih =>
    unfold walkFrom outwards
    cases s.next? x c with
    | none => rfl
    | some step =>
      obtain ⟨⟨j, gap⟩, c'⟩ := step
      dsimp only
      unfold visitUntil
      cases visit t j gap with
      | none => rfl
      | some t' => exact ih t'

/-- A walk goes through its tour, as far as the visits let it. -/
theorem walk_eq {τ : Type} {visit : τ → Nat → α → Option τ} (t : τ) :
    s.walk i visit t = visitUntil visit t (s.tour i) :=
  walkFrom_eq t

/-- The rows in a stretch of the order. -/
def Cursor.rows (s : PointSet α) (c : Cursor) : List Nat := (s.order.toList.take c.right).drop c.left

omit [Scalar α] in
theorem Cursor.rows_grow_left (hc : c.Within s) (hpos : 0 < c.left)
    (hj : s.order[c.left - 1]? = some j) :
    Cursor.rows s { c with left := c.left - 1 } = j :: c.rows s := by
  have hle := hc.left_le
  obtain ⟨hlt, hj⟩ := List.getElem?_eq_some_iff.mp ((Array.getElem?_toList).trans hj)
  have hbound : c.left - 1 < (s.order.toList.take c.right).length := by
    rw [List.length_take]
    omega
  unfold rows
  dsimp only
  rw [List.drop_eq_getElem_cons hbound, List.getElem_take, hj, Nat.sub_add_cancel hpos]

omit [Scalar α] in
theorem Cursor.rows_grow_right (hc : c.Within s) (hj : s.order[c.right]? = some j) :
    Cursor.rows s { c with right := c.right + 1 } = c.rows s ++ [j] := by
  obtain ⟨hlt, hj⟩ := List.getElem?_eq_some_iff.mp ((Array.getElem?_toList).trans hj)
  have hbound : c.left ≤ (s.order.toList.take c.right).length := by
    have hle := hc.left_le
    rw [List.length_take]
    omega
  unfold rows
  dsimp only
  rw [List.take_succ_eq_append_getElem hlt, List.drop_append_of_le_length hbound, hj]

omit [Scalar α] in
/-- Once all other rows have been visited, the stretch is the whole order. -/
theorem Cursor.Around.rows_eq (hc : c.Around s i) (hall : c.visited = s.size - 1) :
    c.rows s = s.order.toList := by
  obtain ⟨hleft, hlt, hright⟩ := hc
  unfold visited at hall
  have hzero : c.left = 0 := by omega
  have hlast : s.order.toList.length ≤ c.right := by
    change s.size ≤ c.right
    omega
  rw [rows, hzero, List.drop_zero, List.take_of_length_le hlast]

/-- The rows of the stretch and those outwards from it are all rows. -/
theorem rows_append_outwards_perm (hs : s.WellFormed) (hc : c.Around s i)
    (hfuel : s.size ≤ fuel + (c.visited + 1)) :
    (c.rows s ++ (s.outwards x fuel c).map Prod.fst).Perm s.order.toList := by
  induction fuel generalizing c with
  | zero =>
    have hlt := hc.visited_lt
    rw [hc.rows_eq (by omega)]
    simp [outwards]
  | succ fuel ih =>
    unfold outwards
    split
    · rename_i hnone
      rw [hc.rows_eq (hc.visited_eq hnone)]
      simp
    · rename_i p c' hnext
      obtain ⟨hc', hvisited, -, -⟩ := hc.next hs hnext
      refine List.Perm.trans ?_ (ih hc' (by omega))
      rw [List.map_cons]
      rcases of_next? hnext with ⟨hl, rfl, -⟩ | ⟨hr, rfl, -⟩
      · obtain ⟨hpos, hj, -⟩ := of_leftOf hl
        rw [Cursor.rows_grow_left hc.within hpos hj]
        exact List.perm_middle
      · obtain ⟨hj, -⟩ := of_rightOf hr
        rw [Cursor.rows_grow_right hc.within hj, List.append_assoc]
        exact .refl _

/-- A tour visits every other row once. -/
theorem tour_perm (hs : s.WellFormed) (hi : i < s.size) :
    ((s.tour i).map Prod.fst).Perm ((List.range s.size).filter (· != i)) := by
  have hstart := Cursor.Around.start hs hi
  have hrows : Cursor.rows s ⟨s.rank.getD i 0, s.rank.getD i 0 + 1⟩ = [i] := by
    have hempty : Cursor.Within s ⟨s.rank.getD i 0, s.rank.getD i 0⟩ :=
      ⟨le_rfl, (hs.rank_lt_size hi).le⟩
    have hnone : Cursor.rows s ⟨s.rank.getD i 0, s.rank.getD i 0⟩ = [] :=
      List.drop_of_length_le (List.length_take_le _ _)
    have hgrown := Cursor.rows_grow_right hempty (hs.order_rank hi)
    rwa [hnone, List.nil_append] at hgrown
  have hperm := rows_append_outwards_perm (x := s.first i) hs hstart (Nat.le_add_right s.size _)
  rw [hrows] at hperm
  have hall := (hperm.trans hs.order_perm).erase i
  rw [List.singleton_append, List.erase_cons_head, List.nodup_range.erase_eq_filter,
    ← hs.size_eq] at hall
  exact hall

/-- What a walk leads to lies on one of the sides of the stretch, and the gap to it is measured from the
side of `x`. -/
theorem of_mem_outwards {p : Nat × α} (hp : p ∈ s.outwards x fuel c) :
    (∃ r < c.left, s.order[r]? = some p.1 ∧ p.2 = x - s.first p.1) ∨
      ∃ r ≥ c.right, s.order[r]? = some p.1 ∧ p.2 = s.first p.1 - x := by
  induction fuel generalizing c with
  | zero => cases hp
  | succ fuel ih =>
    unfold outwards at hp
    split at hp
    · cases hp
    · rename_i q c' hnext
      rcases of_next? hnext with ⟨hl, rfl, -⟩ | ⟨hr, rfl, -⟩
      · obtain ⟨hpos, hq, hgap⟩ := of_leftOf hl
        rcases List.mem_cons.mp hp with rfl | hp
        · exact .inl ⟨c.left - 1, by omega, hq, hgap⟩
        · refine (ih hp).imp_left ?_
          rintro ⟨r, hlt, h⟩
          exact ⟨r, hlt.trans_le (Nat.sub_le _ _), h⟩
      · obtain ⟨hq, hgap⟩ := of_rightOf hr
        rcases List.mem_cons.mp hp with rfl | hp
        · exact .inr ⟨c.right, le_rfl, hq, hgap⟩
        · refine (ih hp).imp_right ?_
          rintro ⟨r, hle, h⟩
          exact ⟨r, (Nat.le_succ _).trans hle, h⟩

section Gaps

variable (hsorted : s.Sorted)

include hsorted

/-- No gap exceeds the distance to the row. -/
theorem Sorted.gap_le_distance (hs : s.WellFormed) (hi : i < s.size) {p : Nat × α} (hp : p ∈ s.tour i) :
    p.2 ≤ s.distance i p.1 := by
  rcases of_mem_outwards hp with ⟨r, -, hj, hgap⟩ | ⟨r, -, hj, hgap⟩
  · rw [hgap]
    exact hsorted.sub_le_distance hi (hs.lt_size hj)
  · rw [hgap]
    exact hsorted.sub_le_distance_comm hi (hs.lt_size hj)

variable [LawfulGaps α]

/-- On the left of the stretch, no gap is smaller than the one next to it. -/
theorem Sorted.le_of_leftOf (hx : Scalar.isFinite x = true) (hl : s.leftOf x c = some (j, gap))
    (hr : r < c.left) (hk : s.order[r]? = some k) : gap ≤ x - s.first k := by
  obtain ⟨-, hj, rfl⟩ := of_leftOf hl
  exact LawfulGaps.sub_le_sub_left (hsorted.isFinite_first k) (hsorted.isFinite_first j) hx
    (hsorted.first_le hk hj (by omega))

/-- Nor is it on the right. -/
theorem Sorted.le_of_rightOf (hx : Scalar.isFinite x = true) (hr : s.rightOf x c = some (j, gap))
    (hle : c.right ≤ r) (hk : s.order[r]? = some k) : gap ≤ s.first k - x := by
  obtain ⟨hj, rfl⟩ := of_rightOf hr
  exact LawfulGaps.sub_le_sub_right (hsorted.isFinite_first j) (hsorted.isFinite_first k) hx
    (hsorted.first_le hj hk hle)

variable [LawfulOrder α] [LawfulBounds α]

/-- The walk goes to the side with the smaller gap, so that all that it leads to later has no smaller one. -/
theorem Sorted.le_of_next? (hx : Scalar.isFinite x = true) (hc : c.Within s)
    (hnext : s.next? x c = some ((j, gap), c')) {p : Nat × α} (hp : p ∈ s.outwards x fuel c') :
    gap ≤ p.2 := by
  have hnumber (k : Nat) : Scalar.isNaN (x - s.first k) = false :=
    Scalar.isNaN_sub hx (hsorted.isFinite_first k)
  have hnumber' (k : Nat) : Scalar.isNaN (s.first k - x) = false :=
    Scalar.isNaN_sub (hsorted.isFinite_first k) hx
  rcases of_next? hnext with ⟨hl, rfl, hother⟩ | ⟨hr, rfl, hother⟩
  · rcases of_mem_outwards hp with ⟨r, hlt, hk, hgap⟩ | ⟨r, hge, hk, hgap⟩
    · rw [hgap]
      exact hsorted.le_of_leftOf hx hl (by dsimp only at hlt; omega) hk
    · have hsome : s.rightOf x c ≠ none := by
        rw [Ne, rightOf_eq_none_iff hc]
        have hbound : r < s.size := (Array.getElem?_eq_some_iff.mp hk).1
        dsimp only at hge
        omega
      obtain ⟨⟨k, gap'⟩, hr⟩ := Option.ne_none_iff_exists'.mp hsome
      rw [hgap]
      exact LawfulOrder.le_trans (hother _ hr) (hsorted.le_of_rightOf hx hr hge hk)
  · rcases of_mem_outwards hp with ⟨r, hlt, hk, hgap⟩ | ⟨r, hge, hk, hgap⟩
    · have hsome : s.leftOf x c ≠ none := by
        rw [Ne, leftOf_eq_none_iff hc]
        dsimp only at hlt
        omega
      obtain ⟨⟨k', gap'⟩, hl⟩ := Option.ne_none_iff_exists'.mp hsome
      have hle : gap ≤ gap' := by
        refine Scalar.le_of_lt (Scalar.lt_of_not_le ?_ ?_ (hother _ hl))
        · rw [(of_leftOf hl).2.2]
          exact hnumber k'
        · rw [(of_rightOf hr).2]
          exact hnumber' j
      rw [hgap]
      exact LawfulOrder.le_trans hle (hsorted.le_of_leftOf hx hl hlt hk)
    · rw [hgap]
      exact hsorted.le_of_rightOf hx hr (by dsimp only at hge; omega) hk

variable (hs : s.WellFormed)

include hs

theorem Sorted.pairwise_outwards (hx : Scalar.isFinite x = true) (hc : c.Around s i) :
    (s.outwards x fuel c).Pairwise fun p q => p.2 ≤ q.2 := by
  induction fuel generalizing c with
  | zero => exact .nil
  | succ fuel ih =>
    unfold outwards
    split
    · exact .nil
    · rename_i p c' hnext
      refine .cons (fun q hq => hsorted.le_of_next? hx hc.within hnext hq) ?_
      exact ih (hc.next hs hnext).1

/-- Along a tour the gaps do not shrink. -/
theorem Sorted.pairwise_tour (hi : i < s.size) : (s.tour i).Pairwise fun p q => p.2 ≤ q.2 :=
  hsorted.pairwise_outwards hs (hsorted.isFinite_first i) (Cursor.Around.start hs hi)

end Gaps

end Tour

end PointSet

end InfoFlow
