import InfoFlow.Proofs.Belief.Coverage

namespace InfoFlow

namespace ValueRange

variable {α : Type} [Scalar α]

/-- Some intervals that make up a range. Some may be single points. -/
structure IsPartition (r : ValueRange α) (m : ℕ) (bins : List (α × α)) : Prop where
  length_eq : bins.length = m
  starts : bins.head?.map Prod.fst = some r.lower
  ends : bins.getLast?.map Prod.snd = some r.upper
  contiguous : bins.IsChain fun b next => b.2 = next.1
  sorted : (bins.map Prod.snd).Pairwise (· ≤ ·)
  inside : ∀ b ∈ bins, r.lower ≤ b.1 ∧ b.1 ≤ b.2 ∧ b.2 ≤ r.upper

section Stretches

variable {β : Type}

theorem stretches_cons_cons (a b : β) (rest : List β) :
    stretches (a :: b :: rest) = (a, b) :: stretches (b :: rest) := rfl

theorem map_snd_stretches (edges : List β) : (stretches edges).map Prod.snd = edges.drop 1 := by
  unfold stretches
  exact List.map_snd_zip (by simp)

theorem isChain_stretches (edges : List β) : (stretches edges).IsChain fun b next => b.2 = next.1 := by
  induction edges with
  | nil => exact .nil
  | cons a rest ih =>
    cases rest with
    | nil => exact .nil
    | cons b rest =>
      rw [stretches_cons_cons]
      refine ih.cons fun next hnext => ?_
      cases rest with
      | nil => cases hnext
      | cons c rest =>
        rw [stretches_cons_cons, List.head?_cons, Option.mem_some_iff] at hnext
        exact hnext ▸ rfl

theorem rel_of_mem_stretches {R : β → β → Prop} {edges : List β} (h : edges.Pairwise R) {p : β × β}
    (hp : p ∈ stretches edges) : R p.1 p.2 := by
  induction edges with
  | nil => cases hp
  | cons a rest ih =>
    cases rest with
    | nil => cases hp
    | cons b rest =>
      rw [List.pairwise_cons] at h
      rw [stretches_cons_cons, List.mem_cons] at hp
      rcases hp with rfl | hp
      · exact h.1 b List.mem_cons_self
      · exact ih h.2 hp

end Stretches

section Edges

variable [LawfulOrder α] [LawfulBounds α] {r : ValueRange α}

/-- The stretches between sorted edges are a partition, if the edges include the bounds. -/
theorem isPartition_stretches {inner : List α}
    (h : (r.lower :: (inner ++ [r.upper])).Pairwise (· ≤ ·)) :
    r.IsPartition (inner.length + 1) (stretches (r.lower :: (inner ++ [r.upper]))) := by
  obtain ⟨hlower, hrest⟩ := List.pairwise_cons.mp h
  have hupper : r.lower ≤ r.upper := hlower r.upper (by simp)
  obtain ⟨hnumber, hnumber'⟩ := LawfulBounds.isNaN_of_le hupper
  have hfirst : ∀ x ∈ r.lower :: (inner ++ [r.upper]), r.lower ≤ x :=
    List.forall_mem_cons.mpr ⟨Scalar.le_refl hnumber, hlower⟩
  have hlast : ∀ x ∈ r.lower :: (inner ++ [r.upper]), x ≤ r.upper := by
    intro x hx
    rw [← List.cons_append, List.pairwise_append] at h
    rw [← List.cons_append, List.mem_append, List.mem_singleton] at hx
    rcases hx with hx | rfl
    · exact h.2.2 x hx r.upper List.mem_cons_self
    · exact Scalar.le_refl hnumber'
  constructor
  case length_eq => simp [stretches]
  case starts => cases inner <;> rfl
  case ends => rw [← List.getLast?_map, map_snd_stretches, List.drop_one, List.tail_cons, List.getLast?_concat]
  case contiguous => exact isChain_stretches _
  case sorted => rwa [map_snd_stretches]
  case inside =>
    intro b hb
    obtain ⟨hmem, hmem'⟩ := mem_of_mem_stretches hb
    exact ⟨hfirst b.1 hmem, rel_of_mem_stretches h hb, hlast b.2 hmem'⟩

end Edges

section Mass

/-- Edges at some targets, each moved into the range and not below the edge before it. -/
def edgesAt (r : ValueRange α) : List α → α → List α
  | [], _ => []
  | target :: rest, previous =>
    let edge := Scalar.max (Scalar.min (Scalar.max target r.lower) r.upper) previous
    edge :: r.edgesAt rest edge

/-- Bins of equal mass under two functions that need not be those of a distribution. -/
def equalMassBins (r : ValueRange α) (cdf quantile : α → α) (m : ℕ) : List (α × α) :=
  let low := cdf r.lower
  let high := cdf r.upper
  if low < high then
    let targets := ((List.range m).drop 1).map fun i =>
      quantile (low + (high - low) * Scalar.ofNat i / Scalar.ofNat m)
    stretches (r.lower :: (r.edgesAt targets r.lower ++ [r.upper]))
  else r.bins m

theorem innerEdges_eq (r : ValueRange α) (reference : Distribution α) (low high : α) (m : ℕ)
    (indices : List ℕ) (previous : α) :
    r.innerEdges reference low high m indices previous = r.edgesAt (indices.map fun i =>
      reference.quantile (low + (high - low) * Scalar.ofNat i / Scalar.ofNat m)) previous := by
  induction indices generalizing previous with
  | nil => rfl
  | cons i rest ih =>
    simp only [innerEdges, List.map_cons, edgesAt, ih]

theorem quantileBins_eq (r : ValueRange α) (reference : Distribution α) (m : ℕ) :
    r.quantileBins reference m = r.equalMassBins reference.cdf reference.quantile m := by
  unfold quantileBins equalMassBins
  simp only [innerEdges_eq]

theorem length_edgesAt (r : ValueRange α) (targets : List α) (previous : α) :
    (r.edgesAt targets previous).length = targets.length := by
  induction targets generalizing previous with
  | nil => rfl
  | cons target rest ih => rw [edgesAt, List.length_cons, ih, List.length_cons]

variable [LawfulOrder α] [LawfulBounds α] {r : ValueRange α}

/-- Whatever the targets are, no edge lies below the one before it or above the range. -/
theorem pairwise_edgesAt (targets : List α) {previous : α} (h : previous ≤ r.upper) :
    (previous :: (r.edgesAt targets previous ++ [r.upper])).Pairwise (· ≤ ·) := by
  induction targets generalizing previous with
  | nil => exact List.pairwise_pair.mpr h
  | cons target rest ih =>
    obtain ⟨hprevious, hupper⟩ := LawfulBounds.isNaN_of_le h
    obtain ⟨edge, hedge⟩ :
        ∃ edge, Scalar.max (Scalar.min (Scalar.max target r.lower) r.upper) previous = edge := ⟨_, rfl⟩
    have habove : previous ≤ edge := hedge ▸ Scalar.le_max_right _ hprevious
    have hbelow : edge ≤ r.upper := hedge ▸ Scalar.max_le (Scalar.min_le_right _ hupper) h
    have hrest := ih hbelow
    rw [edgesAt]
    simp only [hedge, List.cons_append]
    refine hrest.cons fun x hx => ?_
    rcases List.mem_cons.mp hx with rfl | hx
    · exact habove
    · exact LawfulOrder.le_trans habove ((List.pairwise_cons.mp hrest).1 x hx)

end Mass

section Width

/-- The edges of bins of equal width. -/
def edge (r : ValueRange α) (m i : ℕ) : α := r.lower + Scalar.ofNat i * (r.width / Scalar.ofNat m)

theorem bins_eq_stretches (r : ValueRange α) (m : ℕ) :
    r.bins m = stretches ((List.range m).map (r.edge m) ++ [r.upper]) := by
  refine List.ext_getElem (by simp [bins, stretches]) fun i hi _ => ?_
  have him : i < m := by simpa [bins] using hi
  simp only [bins, stretches, List.getElem_map, List.getElem_range, List.getElem_zip, List.getElem_drop]
  congr 1
  · rw [List.getElem_append_left (by simpa using him), List.getElem_map, List.getElem_range]
    rfl
  · split
    · rename_i hlast
      rw [List.getElem_append_right (by simp; omega)]
      simp [hlast, add_comm 1 i]
    · rw [List.getElem_append_left (by simp; omega), List.getElem_map, List.getElem_range, add_comm 1 i]
      rfl

end Width

section Bins

open Exact

variable {r : ValueRange Exact} {m : ℕ}

theorem edge_real {x y : ℝ} (hm : 0 < m) (i : ℕ) :
    (ValueRange.mk (real x) (real y)).edge m i = real (x + i * ((y - x) / m)) := by
  have hdivisor : (m : ℝ) ≠ 0 := Nat.cast_ne_zero.mpr hm.ne'
  simp only [edge, width, ofNat_eq, real_sub, real_div hdivisor, real_mul, real_add]

/-- The edges of bins of equal width increase from bound to bound, and the first one is the lower bound. -/
theorem isPartition_bins (hr : r.IsAccepted) (hm : 1 ≤ m) : r.IsPartition m (r.bins m) := by
  obtain ⟨x, hx, -⟩ := real_of_isBounded hr.isBounded_lower
  obtain ⟨y, hy, -⟩ := real_of_isBounded hr.isBounded_upper
  obtain rfl : r = ⟨real x, real y⟩ := by rw [← hx, ← hy]
  have hxy : x < y := real_lt.mp hr.lower_lt_upper
  obtain ⟨n, rfl⟩ : ∃ n, m = n + 1 := ⟨m - 1, by omega⟩
  have hpos : (0 : ℝ) < (n + 1 : ℕ) := Nat.cast_pos.mpr n.succ_pos
  have hstep : 0 ≤ (y - x) / (n + 1 : ℕ) := (div_pos (sub_pos.mpr hxy) hpos).le
  have hedges : (List.range (n + 1)).map (edge ⟨real x, real y⟩ (n + 1)) =
      real x :: (List.range n).map fun i => edge ⟨real x, real y⟩ (n + 1) (i + 1) := by
    rw [List.range_succ_eq_map, List.map_cons, List.map_map, edge_real n.succ_pos]
    simp [Function.comp_def]
  have hsorted : ((List.range (n + 1)).map (edge ⟨real x, real y⟩ (n + 1)) ++ [real y]).Pairwise (· ≤ ·) := by
    refine List.pairwise_append.mpr ⟨?_, List.pairwise_singleton _ _, fun e he z hz => ?_⟩
    · refine List.pairwise_map.mpr (List.pairwise_lt_range.imp fun {i j} hij => ?_)
      rw [edge_real n.succ_pos, edge_real n.succ_pos, real_le]
      have hle : (i : ℝ) ≤ j := Nat.cast_le.mpr hij.le
      gcongr
    · obtain ⟨i, hi, rfl⟩ := List.mem_map.mp he
      rw [List.mem_singleton.mp hz, edge_real n.succ_pos, real_le]
      have hle : (i : ℝ) ≤ (n + 1 : ℕ) := Nat.cast_le.mpr (List.mem_range.mp hi).le
      calc x + i * ((y - x) / (n + 1 : ℕ)) ≤ x + (n + 1 : ℕ) * ((y - x) / (n + 1 : ℕ)) := by gcongr
        _ = y := by
          rw [mul_div_cancel₀ _ hpos.ne']
          ring
  rw [bins_eq_stretches]
  rw [hedges] at hsorted ⊢
  simpa using isPartition_stretches (r := ⟨real x, real y⟩) hsorted

theorem isPartition_equalMassBins (hr : r.IsAccepted) (hm : 1 ≤ m) (cdf quantile : Exact → Exact) :
    r.IsPartition m (r.equalMassBins cdf quantile m) := by
  unfold equalMassBins
  dsimp only
  split
  · have hpartition := isPartition_stretches (pairwise_edgesAt (((List.range m).drop 1).map fun i =>
      quantile (cdf r.lower + (cdf r.upper - cdf r.lower) * Scalar.ofNat i / Scalar.ofNat m))
      (Scalar.le_of_lt hr.lower_lt_upper))
    rwa [length_edgesAt, List.length_map, List.length_drop, List.length_range, Nat.sub_add_cancel hm]
      at hpartition
  · exact isPartition_bins hr hm

/-- Bins of equal width are a partition of an accepted range, and so are bins of equal mass, whatever the
distribution function and the quantiles of the reference give. -/
theorem isPartition_of_ofBounds {lower upper : Exact} (hr : ofBounds lower upper = .ok r) (hm : 1 ≤ m) :
    r.IsPartition m (r.bins m) ∧
    (∀ reference : Distribution Exact,
      r.quantileBins reference m = r.equalMassBins reference.cdf reference.quantile m ∧
      r.IsPartition m (r.quantileBins reference m)) ∧
    ∀ cdf quantile : Exact → Exact, r.IsPartition m (r.equalMassBins cdf quantile m) := by
  have haccepted := isAccepted_of_ofBounds hr
  refine ⟨isPartition_bins haccepted hm, fun reference => ?_, isPartition_equalMassBins haccepted hm⟩
  have heq := r.quantileBins_eq reference m
  exact ⟨heq, heq ▸ isPartition_equalMassBins haccepted hm _ _⟩

/-- Quantiles that are never numbers: all edges but the last are the lower bound. -/
theorem isPartition_nan :
    ofBounds (real 0) (real 1) = .ok ⟨real 0, real 1⟩ ∧
    (ValueRange.mk (real 0) (real 1)).equalMassBins (fun x => x) (fun _ => nan) 3 =
      [(real 0, real 0), (real 0, real 0), (real 0, real 1)] ∧
    (ValueRange.mk (real 0) (real 1)).IsPartition 3
      ((ValueRange.mk (real 0) (real 1)).equalMassBins (fun x => x) (fun _ => nan) 3) := by
  have hr : ofBounds (real 0) (real 1) = .ok ⟨real 0, real 1⟩ :=
    ofBounds_real (by norm_num) (by norm_num) (by norm_num)
  have hedge : Scalar.max (Scalar.min (Scalar.max nan (real 0)) (real 1)) (real 0) = real 0 := by
    have hnan : Scalar.max nan (real 0) = real 0 := if_pos (isNaN_iff.mpr rfl)
    rw [hnan, min_real, max_real]
    norm_num
  refine ⟨hr, ?_, (isPartition_of_ofBounds hr (by norm_num)).2.2 _ _⟩
  simp [equalMassBins, edgesAt, stretches, hedge, List.range_succ]

end Bins

end ValueRange

end InfoFlow
