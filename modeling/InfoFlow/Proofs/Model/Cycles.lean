import InfoFlow.Proofs.Model.Order
import Mathlib.Data.Fintype.Pigeonhole
import Mathlib.Logic.Relation
import Mathlib.Order.Monotone.Defs

namespace InfoFlow

/-- Some chain of steps from a place comes to a cycle. -/
def LeadsToCycle {β : Type} (step : β → β → Prop) (a : β) : Prop :=
  ∃ b, Relation.ReflTransGen step a b ∧ Relation.TransGen step b b

theorem LeadsToCycle.lift {β γ : Type} {step : β → β → Prop} {step' : γ → γ → Prop} {a : β}
    (f : β → γ) (hf : ∀ a b, step a b → step' (f a) (f b)) (h : LeadsToCycle step a) :
    LeadsToCycle step' (f a) := by
  obtain ⟨b, hab, hbb⟩ := h
  exact ⟨f b, hab.lift f hf, hbb.lift f hf⟩

/-- What leads to a cycle lies on one, or some place further on does. -/
theorem leadsToCycle_iff {β : Type} {step : β → β → Prop} {a : β} :
    LeadsToCycle step a ↔ Relation.TransGen step a a ∨
      ∃ b, Relation.TransGen step a b ∧ Relation.TransGen step b b := by
  constructor
  · rintro ⟨b, hab, hbb⟩
    rcases Relation.reflTransGen_iff_eq_or_transGen.mp hab with rfl | hab
    · exact .inl hbb
    · exact .inr ⟨b, hab, hbb⟩
  · rintro (haa | ⟨b, hab, hbb⟩)
    · exact ⟨a, .refl, haa⟩
    · exact ⟨b, hab.to_reflTransGen, hbb⟩

namespace Order

variable {parents : List (List Nat)} {taken : List Nat}

/-- Node `j` is a parent of node `i`. -/
def DependsOn (parents : List (List Nat)) (i j : Nat) : Prop := j ∈ parents.getD i []

/-- Where no node is ready, a node that is left has a parent that is left. -/
theorem exists_parent_left (hnone : next? parents taken = none) {i : Nat} (hi : i < parents.length)
    (hleft : i ∉ taken) : ∃ j, DependsOn parents i j ∧ j ∉ taken := by
  have hready := List.find?_eq_none.mp hnone i (List.mem_range.mpr hi)
  simpa [isReady, hleft, DependsOn] using hready

/-- Whatever a taken node depends on was taken, and before it. -/
theorem IsOrdered.idxOf_lt_of_transGen (h : IsOrdered parents taken) {i j : Nat} (hi : i ∈ taken)
    (hij : Relation.TransGen (DependsOn parents) i j) :
    j ∈ taken ∧ taken.idxOf j < taken.idxOf i := by
  induction hij with
  | single hj => exact ⟨h.parents_mem i hi _ hj, h.parents_first i hi _ hj⟩
  | tail _ hk ih =>
    obtain ⟨hj, hlt⟩ := ih
    exact ⟨h.parents_mem _ hj _ hk, (h.parents_first _ hj _ hk).trans hlt⟩

theorem IsOrdered.not_leadsToCycle (h : IsOrdered parents taken) {i : Nat} (hi : i ∈ taken) :
    ¬ LeadsToCycle (DependsOn parents) i := by
  rintro ⟨j, hij, hjj⟩
  have hj : j ∈ taken := by
    rcases Relation.reflTransGen_iff_eq_or_transGen.mp hij with rfl | hij
    · exact hi
    · exact (h.idxOf_lt_of_transGen hi hij).1
  exact Nat.lt_irrefl _ (h.idxOf_lt_of_transGen hj hjj).2

/-- From a node that is left, one can go from parent to parent for ever. As there are only so many
nodes, some node comes twice. -/
theorem leadsToCycle_of_left (hclosed : ∀ i j, DependsOn parents i j → j < parents.length)
    (hnone : next? parents taken = none) {i : Nat} (hi : i < parents.length) (hleft : i ∉ taken) :
    LeadsToCycle (DependsOn parents) i := by
  have hparent (a : { j : Fin parents.length // j.val ∉ taken }) :
      ∃ b : { j : Fin parents.length // j.val ∉ taken }, DependsOn parents a.1 b.1 := by
    obtain ⟨j, hj, hjleft⟩ := exists_parent_left hnone a.1.isLt a.2
    exact ⟨⟨⟨j, hclosed _ _ hj⟩, hjleft⟩, hj⟩
  choose parent hparent using hparent
  let walk (k : Nat) := parent^[k] ⟨⟨i, hi⟩, hleft⟩
  have hstep (k : Nat) : DependsOn parents (walk k).1 (walk (k + 1)).1 := by
    have hnext : walk (k + 1) = parent (walk k) := Function.iterate_succ_apply' parent k _
    rw [hnext]
    exact hparent _
  have hpath {a b : Nat} (hab : a < b) :
      Relation.TransGen (DependsOn parents) (walk a).1 (walk b).1 :=
    Nat.rel_of_forall_rel_succ_of_lt (fun x y : { j : Fin parents.length // j.val ∉ taken } =>
      Relation.TransGen (DependsOn parents) x.1 y.1) (fun k => .single (hstep k)) hab
  obtain ⟨a, b, hlt, hsame⟩ : ∃ a b, a < b ∧ walk a = walk b := by
    obtain ⟨a, b, hne, hsame⟩ := Finite.exists_ne_map_eq_of_infinite walk
    rcases Nat.lt_or_gt_of_ne hne with hlt | hlt
    · exact ⟨a, b, hlt, hsame⟩
    · exact ⟨b, a, hlt, hsame.symm⟩
  have hcycle := hpath hlt
  rw [← hsame] at hcycle
  refine ⟨(walk a).1, ?_, hcycle⟩
  rcases Nat.eq_zero_or_pos a with rfl | hpos
  · exact .refl
  · exact (hpath hpos).to_reflTransGen

open Classical in
/-- The sort answers an order of all nodes if there is no cycle, and else the nodes that lead to one. -/
theorem topological_cases (hclosed : ∀ i j, DependsOn parents i j → j < parents.length) :
    (∃ order, topological parents = .ok order) ∧
        (∀ i < parents.length, ¬ LeadsToCycle (DependsOn parents) i) ∨
      topological parents = .error
          ((List.range parents.length).filter fun i => LeadsToCycle (DependsOn parents) i) ∧
        ∃ i < parents.length, LeadsToCycle (DependsOn parents) i := by
  have hordered : IsOrdered parents (extend parents parents.length []) :=
    isOrdered_nil.extend parents.length
  have hleft {i : Nat} (hi : i < parents.length) :
      i ∉ extend parents parents.length [] ↔ LeadsToCycle (DependsOn parents) i :=
    ⟨leadsToCycle_of_left hclosed (next?_extend_eq_none parents) hi,
      fun hcycle hmem => hordered.not_leadsToCycle hmem hcycle⟩
  cases h : topological parents with
  | ok order =>
    refine .inl ⟨⟨order, rfl⟩, fun i hi => ?_⟩
    obtain ⟨hsorted, hperm⟩ := topological_spec h
    exact hsorted.not_leadsToCycle (hperm.mem_iff.mpr (List.mem_range.mpr hi))
  | error stuck =>
    rw [topological_eq] at h
    split at h
    · rename_i hshort
      cases h
      refine .inr ⟨congrArg Except.error (List.filter_congr fun i hi => ?_), ?_⟩
      · simpa only [List.contains_eq_mem, ← decide_not] using
          decide_eq_decide.mpr (hleft (List.mem_range.mp hi))
      · by_contra hnone
        push Not at hnone
        have hsubset : List.range parents.length ⊆ extend parents parents.length [] :=
          fun i hi => not_not.mp fun hmem =>
            hnone i (List.mem_range.mp hi) ((hleft (List.mem_range.mp hi)).mp hmem)
        have hlength := (List.nodup_range.subperm hsubset).length_le
        rw [List.length_range] at hlength
        omega
    · cases h

end Order

end InfoFlow
