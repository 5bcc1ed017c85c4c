import InfoFlow.Model.Order
import Mathlib.Data.List.Perm.Subperm
import Mathlib.Data.List.Range
import Mathlib.Data.List.Sort

namespace InfoFlow.Order

/-- Whether a node can be taken: it has not been, and all its parents have. -/
def isReady (parents : List (List Nat)) (taken : List Nat) (i : Nat) : Bool :=
  !taken.contains i && (parents.getD i []).all taken.contains

/-- The first node that can be taken. -/
def next? (parents : List (List Nat)) (taken : List Nat) : Option Nat :=
  (List.range parents.length).find? (isReady parents taken)

/-- Takes up to `fuel` further nodes, each as soon as it is the first one ready. -/
def extend (parents : List (List Nat)) : Nat → List Nat → List Nat
  | 0, taken => taken
  | fuel + 1, taken =>
    match next? parents taken with
    | some i => extend parents fuel (taken ++ [i])
    | none => taken

/-- Nodes that were taken one after the other, each after its parents. -/
structure IsOrdered (parents : List (List Nat)) (taken : List Nat) : Prop where
  nodup : taken.Nodup
  lt_length : ∀ i ∈ taken, i < parents.length
  parents_mem : ∀ i ∈ taken, ∀ j ∈ parents.getD i [], j ∈ taken
  parents_first : ∀ i ∈ taken, ∀ j ∈ parents.getD i [], taken.idxOf j < taken.idxOf i

variable {parents : List (List Nat)} {taken : List Nat} {i : Nat}

theorem isOrdered_nil : IsOrdered parents [] := by
  constructor <;> simp

theorem next?_spec (h : next? parents taken = some i) :
    i < parents.length ∧ i ∉ taken ∧ ∀ j ∈ parents.getD i [], j ∈ taken := by
  have hready := List.find?_some h
  have hmem := List.mem_of_find?_eq_some h
  simp only [isReady, Bool.and_eq_true, Bool.not_eq_true', List.contains_eq_mem,
    decide_eq_false_iff_not, List.all_eq_true, decide_eq_true_eq] at hready
  exact ⟨List.mem_range.mp hmem, hready.1, hready.2⟩

theorem IsOrdered.append (h : IsOrdered parents taken) (hnext : next? parents taken = some i) :
    IsOrdered parents (taken ++ [i]) := by
  obtain ⟨hlt, hfresh, hparents⟩ := next?_spec hnext
  refine ⟨?_, ?_, ?_, ?_⟩
  · exact List.nodup_append.mpr ⟨h.nodup, by simp, by rintro a ha b hb rfl; simp_all⟩
  · intro k hk
    rcases List.mem_append.mp hk with hk | hk
    · exact h.lt_length k hk
    · rwa [List.mem_singleton.mp hk]
  · intro k hk j hj
    rcases List.mem_append.mp hk with hk | hk
    · exact List.mem_append_left _ (h.parents_mem k hk j hj)
    · rw [List.mem_singleton.mp hk] at hj
      exact List.mem_append_left _ (hparents j hj)
  · intro k hk j hj
    rcases List.mem_append.mp hk with hk | hk
    · rw [List.idxOf_append_of_mem (h.parents_mem k hk j hj), List.idxOf_append_of_mem hk]
      exact h.parents_first k hk j hj
    · rw [List.mem_singleton.mp hk] at hj ⊢
      rw [List.idxOf_append_of_mem (hparents j hj), List.idxOf_append_of_notMem hfresh]
      have hbound := List.idxOf_lt_length_of_mem (hparents j hj)
      omega

theorem IsOrdered.extend (fuel : Nat) (h : IsOrdered parents taken) :
    IsOrdered parents (extend parents fuel taken) := by
  induction fuel generalizing taken with
  | zero => exact h
  | succ fuel ih =>
    unfold Order.extend
    split
    · rename_i hnext
      exact ih (h.append hnext)
    · exact h

/-- A parent stands before the nodes it is a parent of. -/
theorem IsOrdered.lt_of_mem_parents (h : IsOrdered parents taken) {j d k : Nat}
    (hi : taken[i]? = some d) (hj : taken[j]? = some k) (hk : k ∈ parents.getD d []) : j < i := by
  obtain ⟨hilt, rfl⟩ := List.getElem?_eq_some_iff.mp hi
  obtain ⟨hjlt, rfl⟩ := List.getElem?_eq_some_iff.mp hj
  have hidx := h.parents_first _ (List.getElem_mem hilt) _ hk
  rwa [h.nodup.idxOf_getElem, h.nodup.idxOf_getElem] at hidx

section Fuel

/-- Nodes are taken until none is ready, or as many as the fuel allows. -/
private theorem extend_stops (parents : List (List Nat)) (fuel : Nat) (taken : List Nat) :
    next? parents (extend parents fuel taken) = none ∨
      (extend parents fuel taken).length = taken.length + fuel := by
  induction fuel generalizing taken with
  | zero => exact .inr rfl
  | succ fuel ih =>
    unfold extend
    split
    · rename_i i hnext
      rcases ih (taken ++ [i]) with hnone | hlength
      · exact .inl hnone
      · refine .inr (hlength.trans ?_)
        rw [List.length_append, List.length_singleton]
        omega
    · rename_i hnext
      exact .inl hnext

/-- The fuel of the sort is enough: at the end, no node is ready. -/
theorem next?_extend_eq_none (parents : List (List Nat)) :
    next? parents (extend parents parents.length []) = none := by
  rcases extend_stops parents parents.length [] with hnone | hlength
  · exact hnone
  · have hordered : IsOrdered parents (extend parents parents.length []) :=
      isOrdered_nil.extend parents.length
    have hsubset : extend parents parents.length [] ⊆ List.range parents.length :=
      fun i hi => List.mem_range.mpr (hordered.lt_length i hi)
    have hperm := (hordered.nodup.subperm hsubset).perm_of_length_le (by simp [hlength])
    cases hnext : next? parents (extend parents parents.length []) with
    | none => rfl
    | some i =>
      obtain ⟨hi, hfresh, _⟩ := next?_spec hnext
      exact absurd (hperm.mem_iff.mpr (List.mem_range.mpr hi)) hfresh

end Fuel

section Waiting

/-- How many of its parents a node waits for, once some nodes are taken. -/
def missing (parents : List (List Nat)) (taken : List Nat) (i : Nat) : Nat :=
  (parents.getD i []).countP fun j => !taken.contains j

theorem isReady_iff : isReady parents taken i = true ↔ i ∉ taken ∧ missing parents taken i = 0 := by
  simp [isReady, missing, List.countP_eq_zero]

/-- Once a node is taken, its children wait for it no more. -/
theorem missing_append (hfresh : i ∉ taken) (c : Nat) :
    missing parents taken c = missing parents (taken ++ [i]) c + (parents.getD c []).count i := by
  unfold missing
  induction parents.getD c [] with
  | nil => rfl
  | cons j rest ih =>
    rw [List.countP_cons, List.countP_cons, List.count_cons, ih]
    by_cases hij : j = i
    · simp [hij, hfresh, Nat.add_assoc]
    · simp [hij, Nat.add_right_comm]

private theorem count_children_from (parents : List (List Nat)) (i c start : Nat) :
    ((parents.zipIdx start).flatMap fun (ps, child) => List.replicate (ps.count i) child).count c =
      if start ≤ c then (parents.getD (c - start) []).count i else 0 := by
  induction parents generalizing start with
  | nil => simp
  | cons ps rest ih =>
    rw [List.zipIdx_cons, List.flatMap_cons, List.count_append, ih, List.count_replicate]
    rcases Nat.lt_trichotomy c start with hlt | rfl | hlt
    · rw [if_neg (by simp; omega), if_neg (by omega), if_neg (by omega)]
    · rw [if_pos (by simp), if_neg (by omega), if_pos le_rfl, Nat.sub_self]
      rfl
    · obtain ⟨k, rfl⟩ := Nat.exists_eq_add_of_lt hlt
      have hhead : start + k + 1 - start = k + 1 := by omega
      have htail : start + k + 1 - (start + 1) = k := by omega
      rw [if_neg (by simp; omega), if_pos (by omega), if_pos (by omega), hhead, htail, Nat.zero_add]
      rfl

/-- A node has a child as often as it is among the child's parents. -/
theorem count_children (parents : List (List Nat)) (i c : Nat) :
    (children parents i).count c = (parents.getD c []).count i := by
  refine (count_children_from parents i c 0).trans ?_
  rw [if_pos (Nat.zero_le c), Nat.sub_zero]

theorem mem_insertNode {a : Nat} {nodes : List Nat} : a ∈ insertNode i nodes ↔ a = i ∨ a ∈ nodes := by
  induction nodes with
  | nil => simp [insertNode]
  | cons j rest ih =>
    unfold insertNode
    split
    · simp
    · split
      · rename_i heq
        simp [heq]
      · rw [List.mem_cons, ih, List.mem_cons]
        tauto

theorem pairwise_insertNode {nodes : List Nat} (h : nodes.Pairwise (· < ·)) :
    (insertNode i nodes).Pairwise (· < ·) := by
  induction nodes with
  | nil => exact List.pairwise_singleton _ _
  | cons j rest ih =>
    obtain ⟨hhead, hrest⟩ := List.pairwise_cons.mp h
    unfold insertNode
    split
    · rename_i hlt
      refine List.pairwise_cons.mpr ⟨fun a ha => ?_, h⟩
      rcases List.mem_cons.mp ha with rfl | ha
      · exact hlt
      · exact hlt.trans (hhead a ha)
    · split
      · exact h
      · rename_i hnot hne
        refine List.pairwise_cons.mpr ⟨fun a ha => ?_, ih hrest⟩
        rcases mem_insertNode.mp ha with rfl | ha
        · omega
        · exact hhead a ha

namespace Progress

variable {s : Progress} {c d : Nat}

theorem waiting_release (hd : 0 < s.waiting.getD d 0) :
    (s.release d).waiting.getD c 0 = s.waiting.getD c 0 - if c = d then 1 else 0 := by
  have hlt : d < s.waiting.length := by
    by_contra hnot
    simp [Nat.le_of_not_lt hnot] at hd
  unfold release
  dsimp only
  split
  · rename_i heq
    rw [heq, List.getD_eq_getElem?_getD, List.getElem?_set_self hlt]
    rfl
  · rename_i hne
    rw [List.getD_eq_getElem?_getD, List.getElem?_set_ne (Ne.symm hne), List.getD_eq_getElem?_getD]
    rfl

theorem mem_ready_release : c ∈ (s.release d).ready ↔
    c ∈ s.ready ∨ c = d ∧ s.waiting.getD d 0 - 1 = 0 := by
  unfold release
  dsimp only
  split
  · rw [mem_insertNode]
    tauto
  · tauto

theorem pairwise_ready_release (h : s.ready.Pairwise (· < ·)) :
    (s.release d).ready.Pairwise (· < ·) := by
  unfold release
  dsimp only
  split
  · exact pairwise_insertNode h
  · exact h

/-- What becomes of a sort when nodes are released, each at most as often as it waits for a parent: it is
ready if it waits for none any more. -/
structure Releases (s : Progress) (nodes : List Nat) (s' : Progress) : Prop where
  taken_eq : s'.taken = s.taken
  waiting_eq (c : Nat) : s'.waiting.getD c 0 = s.waiting.getD c 0 - nodes.count c
  pairwise_ready : s'.ready.Pairwise (· < ·)
  mem_ready (c : Nat) :
    c ∈ s'.ready ↔ c ∈ s.ready ∨ c ∈ nodes ∧ s.waiting.getD c 0 = nodes.count c

theorem releases_foldl (nodes : List Nat) (hnodes : ∀ c, nodes.count c ≤ s.waiting.getD c 0)
    (hready : s.ready.Pairwise (· < ·)) : s.Releases nodes (nodes.foldl release s) := by
  induction nodes generalizing s with
  | nil => exact ⟨rfl, fun c => by simp, hready, fun c => by simp⟩
  | cons d rest ih =>
    have hcount (c : Nat) : (d :: rest).count c = rest.count c + if c = d then 1 else 0 := by
      simp only [List.count_cons, beq_iff_eq, eq_comm (a := c)]
    have hd : 0 < s.waiting.getD d 0 := by
      have hle := hnodes d
      rw [hcount, if_pos rfl] at hle
      omega
    have hrest (c : Nat) : rest.count c ≤ (s.release d).waiting.getD c 0 := by
      have hle := hnodes c
      rw [hcount] at hle
      rw [waiting_release hd]
      omega
    have h := ih hrest (pairwise_ready_release hready)
    refine ⟨h.taken_eq, fun c => ?_, h.pairwise_ready, fun c => ?_⟩
    · rw [List.foldl_cons, h.waiting_eq, waiting_release hd, hcount]
      omega
    · rw [List.foldl_cons, h.mem_ready, mem_ready_release, waiting_release hd, hcount, List.mem_cons,
        or_assoc]
      refine or_congr_right ?_
      by_cases hc : c = d
      · subst hc
        simp only [if_pos, true_and, true_or]
        rw [← List.count_pos_iff]
        have hle := hnodes c
        rw [hcount, if_pos rfl] at hle
        omega
      · simp [hc]

end Progress

end Waiting

section Tracking

/-- The sort knows how many parents each node waits for, and which nodes are ready. -/
structure Progress.Tracks (parents : List (List Nat)) (s : Progress) : Prop where
  ordered : IsOrdered parents s.taken
  waiting_eq (i : Nat) : s.waiting.getD i 0 = missing parents s.taken i
  ready_eq : s.ready = (List.range parents.length).filter (isReady parents s.taken)

namespace Progress.Tracks

variable {s : Progress}

theorem start (parents : List (List Nat)) : (Progress.start parents).Tracks parents := by
  have hwaiting (i : Nat) : (parents.map List.length).getD i 0 = missing parents [] i := by
    unfold missing
    rw [List.getD_eq_getElem?_getD, List.getElem?_map, List.getD_eq_getElem?_getD]
    cases parents[i]? <;> simp
  refine ⟨isOrdered_nil, hwaiting, List.filter_congr fun i _ => ?_⟩
  rw [Bool.eq_iff_iff, isReady_iff, beq_iff_eq, hwaiting]
  exact (and_iff_right List.not_mem_nil).symm

theorem next?_eq (h : s.Tracks parents) : next? parents s.taken = s.ready.head? := by
  rw [h.ready_eq, List.head?_filter]
  rfl

/-- The first ready node is taken; its children wait for it no more, and some of them become ready. -/
theorem take (h : s.Tracks parents) {ready : List Nat} (hready : s.ready = i :: ready) :
    (s.take parents i ready).taken = s.taken ++ [i] ∧ (s.take parents i ready).Tracks parents := by
  have hnext : next? parents s.taken = some i := by rw [h.next?_eq, hready]; rfl
  obtain ⟨_, hfresh, hparents⟩ := next?_spec hnext
  have hsorted : (i :: ready).Pairwise (· < ·) := by
    rw [← hready, h.ready_eq]
    exact List.pairwise_lt_range.filter _
  obtain ⟨hfirst, hrest⟩ := List.pairwise_cons.mp hsorted
  have hmem (c : Nat) : c = i ∨ c ∈ ready ↔ c < parents.length ∧ c ∉ s.taken ∧
      missing parents s.taken c = 0 := by
    rw [← List.mem_cons, ← hready, h.ready_eq, List.mem_filter, List.mem_range, isReady_iff]
  have hcount (c : Nat) : (children parents i).count c ≤ s.waiting.getD c 0 := by
    rw [count_children, h.waiting_eq, missing_append hfresh]
    exact Nat.le_add_left _ _
  have hreleases := releases_foldl (s := { s with ready := ready, taken := s.taken ++ [i] })
    (children parents i) hcount hrest
  have htaken : (s.take parents i ready).taken = s.taken ++ [i] := hreleases.taken_eq
  refine ⟨htaken, htaken ▸ h.ordered.append hnext, fun c => ?_, ?_⟩
  · rw [htaken]
    refine (hreleases.waiting_eq c).trans ?_
    dsimp only
    rw [count_children, h.waiting_eq, missing_append hfresh]
    exact Nat.add_sub_cancel _ _
  · rw [htaken]
    refine hreleases.pairwise_ready.eq_of_mem_iff (List.pairwise_lt_range.filter _) fun c => ?_
    refine (hreleases.mem_ready c).trans ?_
    rw [List.mem_filter, List.mem_range, isReady_iff]
    dsimp only
    rw [← List.count_pos_iff (l := children parents i), count_children, h.waiting_eq]
    have hmissing : missing parents s.taken c =
        missing parents (s.taken ++ [i]) c + (parents.getD c []).count i := missing_append hfresh c
    constructor
    · rintro (hc | ⟨hpos, heq⟩)
      · obtain ⟨hlt, hleft, hzero⟩ := (hmem c).mp (.inr hc)
        have hne : c ≠ i := fun heq => Nat.lt_irrefl _ (heq ▸ hfirst c hc)
        exact ⟨hlt, by simp [hleft, hne], by omega⟩
      · have hparent : i ∈ parents.getD c [] := List.count_pos_iff.mp hpos
        refine ⟨?_, fun hc => ?_, by omega⟩
        · by_contra hnot
          simp [Nat.le_of_not_lt hnot] at hparent
        · rcases List.mem_append.mp hc with hc | hc
          · exact hfresh (h.ordered.parents_mem c hc i hparent)
          · rw [List.mem_singleton.mp hc] at hparent
            exact hfresh (hparents i hparent)
    · rintro ⟨hlt, hleft, hzero⟩
      rw [List.mem_append, List.mem_singleton, not_or] at hleft
      rcases Nat.eq_zero_or_pos (missing parents s.taken c) with hnone | hsome
      · exact .inl (((hmem c).mpr ⟨hlt, hleft.1, hnone⟩).resolve_left hleft.2)
      · exact .inr (by omega)

/-- The sort takes the first ready node, again and again. -/
theorem run (h : s.Tracks parents) (fuel : Nat) :
    (s.run parents fuel).taken = extend parents fuel s.taken ∧ (s.run parents fuel).Tracks parents := by
  induction fuel generalizing s with
  | zero => exact ⟨rfl, h⟩
  | succ fuel ih =>
    unfold Progress.run extend
    rw [h.next?_eq]
    cases hready : s.ready with
    | nil => exact ⟨rfl, h⟩
    | cons i ready =>
      obtain ⟨htaken, htracks⟩ := h.take hready
      obtain ⟨hrun, hrest⟩ := ih htracks
      exact ⟨hrun.trans (by rw [htaken]; rfl), hrest⟩

/-- Where no node is ready, the nodes that wait for a parent are those that are left. -/
theorem waiting_pos_iff (h : s.Tracks parents) (hnone : next? parents s.taken = none)
    (hi : i < parents.length) : 0 < s.waiting.getD i 0 ↔ i ∉ s.taken := by
  rw [h.waiting_eq]
  constructor
  · intro hpos hmem
    have hzero : missing parents s.taken i = 0 :=
      List.countP_eq_zero.mpr fun j hj => by simpa using h.ordered.parents_mem i hmem j hj
    omega
  · intro hleft
    refine Nat.pos_of_ne_zero fun hzero => ?_
    have hready := List.find?_eq_none.mp hnone i (List.mem_range.mpr hi)
    exact hready (isReady_iff.mpr ⟨hleft, hzero⟩)

end Progress.Tracks

/-- The sort answers the nodes as they become the first one ready, or else the nodes that never do. -/
theorem topological_eq (parents : List (List Nat)) :
    topological parents =
      if (extend parents parents.length []).length < parents.length then
        .error ((List.range parents.length).filter fun i => !(extend parents parents.length []).contains i)
      else .ok (extend parents parents.length []) := by
  obtain ⟨htaken, htracks⟩ := (Progress.Tracks.start parents).run parents.length
  have htaken : ((Progress.start parents).run parents parents.length).taken =
      extend parents parents.length [] := htaken
  unfold topological
  dsimp only
  rw [htaken]
  split
  · refine congrArg Except.error (List.filter_congr fun i hi => ?_)
    have hnone := next?_extend_eq_none parents
    rw [← htaken] at hnone
    have hwaits := htracks.waiting_pos_iff hnone (List.mem_range.mp hi)
    rw [htaken] at hwaits
    simpa only [List.contains_eq_mem, ← decide_not] using decide_eq_decide.mpr hwaits
  · rfl

/-- A topological order is a permutation of the nodes with every node after its parents. -/
theorem topological_spec {order : List Nat} (h : topological parents = .ok order) :
    IsOrdered parents order ∧ order.Perm (List.range parents.length) := by
  rw [topological_eq] at h
  split at h
  · cases h
  · rename_i hlength
    cases h
    have hordered : IsOrdered parents (Order.extend parents parents.length []) :=
      isOrdered_nil.extend parents.length
    refine ⟨hordered, ?_⟩
    have hsubset : Order.extend parents parents.length [] ⊆ List.range parents.length :=
      fun i hi => List.mem_range.mpr (hordered.lt_length i hi)
    have hsubperm := hordered.nodup.subperm hsubset
    exact hsubperm.perm_of_length_le (by simpa using hlength)

end Tracking

end InfoFlow.Order
