import InfoFlow.Proofs.Model.Cycles
import Mathlib.Data.List.Lex

namespace InfoFlow.Order

/-- A permutation of the nodes in which every node comes after its parents. -/
structure IsTopological (parents : List (List Nat)) (order : List Nat) : Prop where
  perm : order.Perm (List.range parents.length)
  parents_first : ∀ i, ∀ j ∈ parents.getD i [], order.idxOf j < order.idxOf i

variable {parents : List (List Nat)} {taken order : List Nat} {d i : Nat}

theorem lt_length_of_mem_parents {j : Nat} (h : j ∈ parents.getD i []) : i < parents.length := by
  by_contra hnot
  simp [Nat.le_of_not_lt hnot] at h

theorem isTopological_of_topological (h : topological parents = .ok order) :
    IsTopological parents order := by
  obtain ⟨hordered, hperm⟩ := topological_spec h
  refine ⟨hperm, fun i j hj => hordered.parents_first i ?_ j hj⟩
  exact hperm.mem_iff.mpr (List.mem_range.mpr (lt_length_of_mem_parents hj))

/-- The node after a beginning of a topological order is ready once that beginning is taken. -/
theorem IsTopological.isReady {rest : List Nat} (h : IsTopological parents (taken ++ d :: rest)) :
    d < parents.length ∧ isReady parents taken d = true := by
  have hnodup : (taken ++ d :: rest).Nodup := h.perm.nodup_iff.mpr List.nodup_range
  have hfresh : d ∉ taken := fun hd =>
    (List.nodup_append.mp hnodup).2.2 d hd d List.mem_cons_self rfl
  refine ⟨List.mem_range.mp (h.perm.subset (by simp)), ?_⟩
  have hparents (j : Nat) (hj : j ∈ parents.getD d []) : j ∈ taken := by
    have hfirst := h.parents_first d j hj
    rw [List.idxOf_append_of_notMem hfresh, List.idxOf_cons_self, Nat.add_zero] at hfirst
    by_contra hnot
    rw [List.idxOf_append_of_notMem hnot] at hfirst
    omega
  simpa [Order.isReady, hfresh] using hparents

/-- The node that is taken next is the first of those that are ready. -/
theorem next?_le (hd : d < parents.length) (hready : isReady parents taken d = true) :
    ∃ i ≤ d, next? parents taken = some i := by
  cases hnext : next? parents taken with
  | none => exact absurd hready (List.find?_eq_none.mp hnext d (List.mem_range.mpr hd))
  | some i =>
    obtain ⟨_, _, hfirst⟩ := List.find?_range_eq_some.mp hnext
    refine ⟨i, ?_, rfl⟩
    by_contra hlt
    simpa [hready] using hfirst d (Nat.lt_of_not_le hlt)

theorem prefix_extend (fuel : Nat) (taken : List Nat) : taken <+: extend parents fuel taken := by
  induction fuel generalizing taken with
  | zero => exact List.prefix_rfl
  | succ fuel ih =>
    unfold extend
    split
    · exact (List.prefix_append _ _).trans (ih _)
    · exact List.prefix_rfl

/-- No topological order that begins with the nodes taken so far is smaller than the one that the sort
goes on to. At the first node where they differ, the other order has a node that is ready as well. -/
theorem extend_le {rest : List Nat} (h : IsTopological parents (taken ++ rest)) :
    extend parents rest.length taken ≤ taken ++ rest := by
  induction rest generalizing taken with
  | nil => simp [extend]
  | cons d rest ih =>
    obtain ⟨hd, hready⟩ := h.isReady
    obtain ⟨i, hle, hnext⟩ := next?_le hd hready
    unfold extend
    rw [List.length_cons]
    simp only [hnext]
    rcases Nat.eq_or_lt_of_le hle with rfl | hlt
    · have happend : taken ++ [i] ++ rest = taken ++ i :: rest := by simp
      exact happend ▸ ih (happend ▸ h)
    · obtain ⟨tail, htail⟩ : taken ++ [i] <+: extend parents rest.length (taken ++ [i]) :=
        prefix_extend _ _
      rw [← htail, List.append_assoc]
      exact le_of_lt (List.Lex.append_left _ (List.Lex.rel hlt) taken)

theorem topological_le {other : List Nat} (h : topological parents = .ok order)
    (hother : IsTopological parents other) : order ≤ other := by
  have hlength : other.length = parents.length := by simpa using hother.perm.length_eq
  have hle : extend parents other.length [] ≤ other := extend_le hother
  rw [hlength] at hle
  rw [topological_eq] at h
  split at h
  · cases h
  · cases h
    exact hle

/-- Where all nodes stand behind their parents as it is, they are taken in their own order. -/
theorem extend_range (h : IsTopological parents (List.range parents.length)) (fuel k : Nat)
    (hk : k + fuel = parents.length) : extend parents fuel (List.range k) = List.range (k + fuel) := by
  induction fuel generalizing k with
  | zero => rfl
  | succ fuel ih =>
    have hsplit : List.range parents.length =
        List.range k ++ k :: (List.range fuel).map fun j => k + (j + 1) := by
      rw [← hk, List.range_add, List.range_succ_eq_map, List.map_cons, List.map_map]
      rfl
    obtain ⟨hlt, hready⟩ := (hsplit ▸ h).isReady
    obtain ⟨i, hle, hnext⟩ := next?_le hlt hready
    have hfresh : ¬ i < k := fun hik => (next?_spec hnext).2.1 (List.mem_range.mpr hik)
    obtain rfl : i = k := by omega
    unfold extend
    simp only [hnext]
    rw [← List.range_succ, ih (i + 1) (by omega), Nat.add_right_comm, Nat.add_assoc]

theorem topological_range (h : IsTopological parents (List.range parents.length)) :
    topological parents = .ok (List.range parents.length) := by
  have hextend : extend parents parents.length [] = List.range parents.length := by
    simpa using extend_range h parents.length 0 (Nat.zero_add _)
  rw [topological_eq, hextend, if_neg (by simp)]

/-- A node that leads to a cycle is a node of the graph. -/
theorem lt_length_of_leadsToCycle (h : LeadsToCycle (DependsOn parents) i) : i < parents.length := by
  obtain ⟨j, hij, hjj⟩ := h
  rcases Relation.ReflTransGen.cases_head hij with rfl | ⟨k, hk, _⟩
  · obtain ⟨k, hk, _⟩ := Relation.TransGen.head'_iff.mp hjj
    exact lt_length_of_mem_parents hk
  · exact lt_length_of_mem_parents hk

theorem exists_topological_iff (hclosed : ∀ i j, DependsOn parents i j → j < parents.length) :
    (∃ order, topological parents = .ok order) ↔
      ∀ i, ¬ Relation.TransGen (DependsOn parents) i i := by
  rcases topological_cases hclosed with ⟨hsorted, hnone⟩ | ⟨hstuck, i, _, j, _, hjj⟩
  · refine iff_of_true hsorted fun i hii => ?_
    have hlead : LeadsToCycle (DependsOn parents) i := ⟨i, .refl, hii⟩
    exact hnone i (lt_length_of_leadsToCycle hlead) hlead
  · refine iff_of_false ?_ fun hacyclic => hacyclic j hjj
    rintro ⟨order, horder⟩
    rw [hstuck] at horder
    cases horder

theorem stuck_of_topological (hclosed : ∀ i j, DependsOn parents i j → j < parents.length)
    {stuck : List Nat} (h : topological parents = .error stuck) :
    stuck.Pairwise (· < ·) ∧ ∀ i, i ∈ stuck ↔ LeadsToCycle (DependsOn parents) i := by
  rcases topological_cases hclosed with ⟨⟨order, hsorted⟩, _⟩ | ⟨hstuck, _⟩
  · rw [hsorted] at h
    cases h
  · rw [hstuck] at h
    cases h
    refine ⟨List.pairwise_lt_range.filter _, fun i => ?_⟩
    simp only [List.mem_filter, List.mem_range, decide_eq_true_eq]
    exact and_iff_right_of_imp lt_length_of_leadsToCycle

theorem lt_length_of_dependsOn {j : Nat} (hclosed : ∀ ps ∈ parents, ∀ j ∈ ps, j < parents.length)
    (h : DependsOn parents i j) : j < parents.length := by
  have hlt := lt_length_of_mem_parents h
  refine hclosed parents[i] (List.getElem_mem hlt) j ?_
  simpa [DependsOn, hlt] using h

/-- The sort answers an order exactly if no node lies on a cycle: the least order with parents first, which
is that of the declaration where it has parents first. Otherwise it answers the nodes that lie on a cycle
or have an ancestor on one, in increasing order. Parents may be repeated. -/
theorem topological_least_or_stuck (hclosed : ∀ ps ∈ parents, ∀ j ∈ ps, j < parents.length) :
    ((∃ order, topological parents = .ok order) ↔
        ∀ i, ¬ Relation.TransGen (DependsOn parents) i i) ∧
      (∀ order, topological parents = .ok order → IsTopological parents order ∧
        (∀ other, IsTopological parents other → order ≤ other) ∧
        (IsTopological parents (List.range parents.length) → order = List.range parents.length)) ∧
      ∀ stuck, topological parents = .error stuck → stuck.Pairwise (· < ·) ∧
        ∀ i, i ∈ stuck ↔ Relation.TransGen (DependsOn parents) i i ∨
          ∃ j, Relation.TransGen (DependsOn parents) i j ∧ Relation.TransGen (DependsOn parents) j j := by
  have hlt (i j : Nat) (h : DependsOn parents i j) : j < parents.length :=
    lt_length_of_dependsOn hclosed h
  refine ⟨exists_topological_iff hlt, fun order horder => ⟨isTopological_of_topological horder,
    fun other => topological_le horder, fun hrange => ?_⟩, fun stuck hstuck => ?_⟩
  · rw [topological_range hrange] at horder
    cases horder
    rfl
  · obtain ⟨hsorted, hmem⟩ := stuck_of_topological hlt hstuck
    exact ⟨hsorted, fun i => (hmem i).trans leadsToCycle_iff⟩

/-- Five nodes: the second and the last depend on each other, and the fourth on the second. -/
def knot : List (List Nat) := [[2], [0, 4], [], [1], [1]]

/-- Five nodes, declared in an order that does not have parents first. -/
def untied : List (List Nat) := [[2], [0, 4], [], [1], []]

/-- The knot leaves the two nodes of its cycle and the node below it; untied, all of them are ordered. -/
theorem knot_stuck : (∀ ps ∈ knot, ∀ j ∈ ps, j < knot.length) ∧
    topological knot = .error [1, 3, 4] ∧
    (∀ i, i ∈ [1, 3, 4] ↔ Relation.TransGen (DependsOn knot) i i ∨
      ∃ j, Relation.TransGen (DependsOn knot) i j ∧ Relation.TransGen (DependsOn knot) j j) ∧
    topological untied = .ok [2, 0, 4, 1, 3] ∧
    (∀ i, ¬ Relation.TransGen (DependsOn untied) i i) ∧
    ∀ other, IsTopological untied other → [2, 0, 4, 1, 3] ≤ other := by
  have hknot : ∀ ps ∈ knot, ∀ j ∈ ps, j < knot.length := by decide
  have huntied : ∀ ps ∈ untied, ∀ j ∈ ps, j < untied.length := by decide
  obtain ⟨_, _, hstuck⟩ := topological_least_or_stuck hknot
  obtain ⟨hacyclic, hleast, _⟩ := topological_least_or_stuck huntied
  exact ⟨hknot, rfl, (hstuck _ rfl).2, rfl, hacyclic.mp ⟨_, rfl⟩, (hleast _ rfl).2.1⟩

end InfoFlow.Order
