import InfoFlow.Proofs.Distribution.Samplers
import InfoFlow.Proofs.Inference.Frame
import InfoFlow.Proofs.Inference.JointDensity
import InfoFlow.Proofs.Model.Ancestral
import InfoFlow.Proofs.Model.Observed
import InfoFlow.Proofs.Random.Preparation
import InfoFlow.Proofs.Scalar.Bounds
import Mathlib.Algebra.Order.BigOperators.Group.Finset
import Mathlib.Order.Bounds.Basic

namespace InfoFlow

open Finset

/-- A logarithm: negative infinity for none. -/
def Exact.ofLog : Option ℝ → Exact
  | some x => .real x
  | none => .negInfinity

/-- The weight of a logarithm, relative to that of the largest one. -/
noncomputable def relativeWeight (largest : ℝ) : Option ℝ → ℝ
  | some x => Real.exp (x - largest)
  | none => 0

theorem relativeWeight_nonneg (largest : ℝ) (x : Option ℝ) : 0 ≤ relativeWeight largest x := by
  cases x with
  | none => exact le_rfl
  | some x => exact (Real.exp_pos _).le

/-- Only the differences of logarithms matter. -/
theorem relativeWeight_map_sub (largest offset : ℝ) (x : Option ℝ) :
    relativeWeight largest (x.map (· - offset)) = relativeWeight (largest + offset) x := by
  cases x with
  | none => rfl
  | some x =>
    refine congrArg Real.exp ?_
    ring

/-- Position `k` is drawn by `u` in `[0, 1)`: scaled to the sum of `n` weights, it lies in the share of the
sum that weight `k` has. -/
structure IsDrawn (w : ℕ → ℝ) (n : ℕ) (u : ℝ) (k : ℕ) : Prop where
  lt : k < n
  lower_le : ∑ j ∈ range k, w j ≤ u * ∑ j ∈ range n, w j
  lt_upper : u * ∑ j ∈ range n, w j < ∑ j ∈ range (k + 1), w j

namespace IsDrawn

variable {w : ℕ → ℝ} {n k l : ℕ} {u : ℝ}

theorem pos (h : IsDrawn w n u k) : 0 < w k := by
  have hlt := h.lower_le.trans_lt h.lt_upper
  rw [sum_range_succ] at hlt
  linarith

/-- The shares do not overlap. -/
theorem unique (hw : ∀ j, 0 ≤ w j) (hk : IsDrawn w n u k) (hl : IsDrawn w n u l) : k = l := by
  have hbelow {a b : ℕ} (ha : IsDrawn w n u a) (hb : IsDrawn w n u b) : ¬ a < b := by
    intro hlt
    have hshare : ∑ j ∈ range (a + 1), w j ≤ ∑ j ∈ range b, w j :=
      sum_le_sum_of_subset_of_nonneg (range_mono hlt) fun j _ _ => hw j
    linarith [ha.lt_upper, hb.lower_le]
  exact le_antisymm (not_lt.mp (hbelow hl hk)) (not_lt.mp (hbelow hk hl))

end IsDrawn

namespace Model

variable {m : Model Exact} {s : State Exact} {outputs : List (List Exact)} {x : ℝ}

/-- The log of the joint density at a state, where the outputs exist and it is a number. -/
noncomputable def lnDensity? (m : Model Exact) (s : State Exact) : Option ℝ :=
  match m.evaluate s with
  | .ok outputs =>
    match m.lnJoint s outputs with
    | .real x => some x
    | _ => none
  | .error _ => none

theorem lnDensity?_eq_some_iff :
    m.lnDensity? s = some x ↔ ∃ outputs, m.evaluate s = .ok outputs ∧ m.lnJoint s outputs = .real x := by
  unfold lnDensity?
  cases m.evaluate s with
  | error fault => simp
  | ok outputs => cases hjoint : m.lnJoint s outputs <;> simp [hjoint]

/-- A log density that is a number is the sum of finite ones. -/
theorem finiteAt_of_lnJoint (h : m.lnJoint s outputs = .real x) : m.FiniteAt s outputs := by
  have hfinite : Scalar.isFinite (m.lnJoint s outputs) = true := Exact.isFinite_iff.mpr ⟨x, h⟩
  obtain ⟨hpriors, hlikelihood⟩ := LawfulScalar.isFinite_of_add hfinite
  exact ⟨fun t ht => Scalar.isFinite_of_mem_sum hpriors ht, hlikelihood⟩

/-- There is no density where the outputs do not exist, where some element has no finite prior density, or
where the observations have no finite likelihood. -/
theorem lnDensity?_isSome_iff :
    (m.lnDensity? s).isSome ↔ ∃ outputs, m.evaluate s = .ok outputs ∧ m.FiniteAt s outputs := by
  rw [Option.isSome_iff_exists]
  constructor
  · rintro ⟨x, hx⟩
    obtain ⟨outputs, houtputs, hjoint⟩ := lnDensity?_eq_some_iff.mp hx
    exact ⟨outputs, houtputs, finiteAt_of_lnJoint hjoint⟩
  · rintro ⟨outputs, houtputs, hfinite⟩
    exact ⟨_, lnDensity?_eq_some_iff.mpr ⟨outputs, houtputs, lnJoint_eq hfinite⟩⟩

end Model

namespace Chain

section Draws

theorem max_negInfinity (x : Option ℝ) :
    Scalar.max .negInfinity (Exact.ofLog x) = Exact.ofLog x := by
  have hnumber : Scalar.isNaN Exact.negInfinity ≠ true := by simp
  unfold Scalar.max
  rw [if_neg hnumber]
  cases x with
  | none => exact ite_self _
  | some x => exact if_pos trivial

theorem max_none (x : ℝ) : Scalar.max (.real x) (Exact.ofLog none) = .real x := by
  have hnumber : Scalar.isNaN (Exact.real x) ≠ true := by simp
  unfold Scalar.max
  rw [if_neg hnumber]
  exact if_neg fun hlt => hlt

/-- The largest of some logarithms, unless none of them is a number. -/
theorem foldl_max_ofLog (x : ℕ → Option ℝ) (n : ℕ) :
    let fold := ((List.range n).map fun k => Exact.ofLog (x k)).foldl Scalar.max (-Scalar.infinity)
    ((∀ k < n, x k = none) ∧ fold = .negInfinity) ∨
      ∃ largest, IsGreatest {y | ∃ k < n, x k = some y} largest ∧ fold = .real largest := by
  induction n with
  | zero => exact .inl ⟨nofun, rfl⟩
  | succ n ih =>
    dsimp only at ih ⊢
    simp only [List.range_succ, List.map_append, List.map_cons, List.map_nil, List.foldl_append,
      List.foldl_cons, List.foldl_nil, Nat.lt_succ_iff_lt_or_eq, or_imp, forall_and, forall_eq,
      or_and_right, exists_or, exists_eq_left]
    rcases ih with ⟨hnone, hfold⟩ | ⟨largest, ⟨hlargest, hupper⟩, hfold⟩
    · rw [hfold, max_negInfinity]
      cases hx : x n with
      | none => exact .inl ⟨⟨hnone, rfl⟩, rfl⟩
      | some y =>
        refine .inr ⟨y, ⟨.inr rfl, ?_⟩, rfl⟩
        rintro z (⟨k, hk, hz⟩ | hz)
        · rw [hnone k hk] at hz
          cases hz
        · exact (Option.some.inj hz).ge
    · rw [hfold]
      cases hx : x n with
      | none =>
        exact .inr ⟨largest, ⟨.inl hlargest, fun z hz => hupper (hz.resolve_right nofun)⟩,
          max_none largest⟩
      | some y =>
        refine .inr ⟨max largest y, ⟨?_, ?_⟩, Exact.max_real⟩
        · rcases max_cases largest y with ⟨h, _⟩ | ⟨h, _⟩
          · exact .inl (h.symm ▸ hlargest)
          · exact .inr (congrArg some h.symm)
        · rintro z (hz | hz)
          · exact (hupper hz).trans (le_max_left _ _)
          · exact (Option.some.inj hz).ge.trans (le_max_right _ _)

theorem exp_ofLog_sub (largest : ℝ) (x : Option ℝ) :
    Scalar.exp (Exact.ofLog x - .real largest) = .real (relativeWeight largest x) := by
  cases x with
  | none => rfl
  | some x =>
    unfold Exact.ofLog
    rw [Exact.real_sub]
    rfl

/-- The scan of a list of weights ends in the share that holds the number. -/
theorem pick?_real {ws : List ℝ} {u : ℝ} (hu : 0 ≤ u) (hlt : u < ws.sum) :
    ∃ k, pick? (.real u) (ws.map Exact.real) = some k ∧ k < ws.length ∧ (ws.take k).sum ≤ u ∧
      u < (ws.take (k + 1)).sum := by
  induction ws generalizing u with
  | nil => exact absurd hlt (not_lt.mpr hu)
  | cons w ws ih =>
    by_cases hfirst : u < w
    · refine ⟨0, ?_, Nat.succ_pos _, by simpa using hu, by simpa using hfirst⟩
      rw [List.map_cons, pick?, if_pos (Exact.real_lt.mpr hfirst)]
    · rw [List.sum_cons] at hlt
      have hrest : u - w < ws.sum := by linarith
      obtain ⟨k, hpick, hk, hlower, hupper⟩ := ih (sub_nonneg.mpr (not_lt.mp hfirst)) hrest
      refine ⟨k + 1, ?_, Nat.succ_lt_succ hk, ?_, ?_⟩
      · rw [List.map_cons, pick?, if_neg (mt Exact.real_lt.mp hfirst), Exact.real_sub, hpick]
        rfl
      · rw [List.take_succ_cons, List.sum_cons]
        linarith
      · rw [List.take_succ_cons, List.sum_cons]
        linarith

/-- The largest logarithm before an offset is taken from all of them. -/
theorem isGreatest_of_map_sub {x : ℕ → Option ℝ} {offset : ℝ} {n : ℕ} {largest : ℝ}
    (h : IsGreatest {y | ∃ k < n, (x k).map (· - offset) = some y} largest) :
    IsGreatest {y | ∃ k < n, x k = some y} (largest + offset) := by
  obtain ⟨⟨k, hk, hx⟩, hupper⟩ := h
  obtain ⟨y, hy, hsub⟩ := Option.map_eq_some_iff.mp hx
  refine ⟨⟨k, hk, hy.trans (congrArg some (eq_add_of_sub_eq hsub))⟩, fun z ⟨j, hj, hz⟩ => ?_⟩
  exact sub_le_iff_le_add.mp (hupper ⟨j, hj, Option.map_eq_some_iff.mpr ⟨z, hz, rfl⟩⟩)

theorem sum_map_range_take (w : ℕ → ℝ) {k n : ℕ} (hk : k ≤ n) :
    (((List.range n).map w).take k).sum = ∑ j ∈ range k, w j := by
  rw [← List.map_take, List.take_range, min_eq_left hk]
  rfl

/-- A position is drawn in proportion to the weights that the logarithms stand for. -/
theorem isDrawn_drawPosition {x : ℕ → Option ℝ} {n : ℕ} {largest u : ℝ}
    (hlargest : IsGreatest {y | ∃ k < n, x k = some y} largest) (hu : 0 ≤ u) (hu' : u < 1) :
    IsDrawn (fun k => relativeWeight largest (x k)) n u
      (drawPosition ((List.range n).map fun k => Exact.ofLog (x k)) (.real largest) (.real u)) := by
  let w (k : ℕ) := relativeWeight largest (x k)
  have hweights : ((List.range n).map fun k => Exact.ofLog (x k)).map
      (fun z => Scalar.exp (z - Exact.real largest)) = ((List.range n).map w).map Exact.real := by
    rw [List.map_map, List.map_map]
    exact List.map_congr_left fun k _ => exp_ofLog_sub largest (x k)
  have hsum : ((List.range n).map w).sum = ∑ j ∈ range n, w j := rfl
  have hpos : 0 < ∑ j ∈ range n, w j := by
    obtain ⟨k, hk, hx⟩ := hlargest.1
    refine sum_pos' (fun j _ => relativeWeight_nonneg _ _) ⟨k, mem_range.mpr hk, ?_⟩
    simp only [w, hx, relativeWeight]
    exact Real.exp_pos _
  have hscaled : u * ∑ j ∈ range n, w j < ((List.range n).map w).sum :=
    hsum ▸ (mul_lt_iff_lt_one_left hpos).mpr hu'
  obtain ⟨k, hpick, hk, hlower, hupper⟩ := pick?_real (mul_nonneg hu hpos.le) hscaled
  rw [List.length_map, List.length_range] at hk
  rw [sum_map_range_take w hk.le] at hlower
  rw [sum_map_range_take w hk] at hupper
  have hdrawn : drawPosition ((List.range n).map fun k => Exact.ofLog (x k)) (.real largest)
      (.real u) = k := by
    unfold drawPosition
    dsimp only
    rw [hweights, Exact.sum_map_real, hsum, Exact.real_mul, hpick]
    rfl
  rw [hdrawn]
  exact ⟨hk, hlower, hupper⟩

end Draws

variable {m : Model Exact} {c : Chain Exact} {i e : Nat} {node : Node Exact} {x : Exact}

/-- A category with a finite density can be weighed, by what differs from the density by an amount that
is the same for all of them; any other category weighs nothing. -/
theorem categoryWeight_exact (hm : m.WellFormed) (hc : c.Coherent m)
    (hi : m.nodes[i]? = some node) (he : e < node.width) :
    ∃ offset : ℝ, ∀ x, categoryWeight (c.localTerms m i e (c.state.update i e x)) =
      Exact.ofLog ((m.lnDensity? (c.state.update i e x)).map (· - offset)) := by
  obtain ⟨start, hstart⟩ : ∃ start, m.lnJoint c.state c.outputs = .real start :=
    ⟨_, Model.lnJoint_eq hc.finiteAt⟩
  obtain ⟨total, htotal⟩ : ∃ total, c.localTotal m i e = .real total :=
    ⟨_, localTotal_eq hm hc hi he⟩
  refine ⟨start - total, fun x => ?_⟩
  cases hdensity : m.lnDensity? (c.state.update i e x) with
  | some y =>
    obtain ⟨outputs, hevaluate, hjoint⟩ := Model.lnDensity?_eq_some_iff.mp hdensity
    obtain ⟨terms, hterms, hfinite, hdifference, _⟩ :=
      total_sub_localTotal hm hc hi he hevaluate (Model.finiteAt_of_lnJoint hjoint)
    obtain ⟨z, hz⟩ := Exact.isFinite_iff.mp hfinite
    rw [hz, htotal, hjoint, hstart, Exact.real_sub, Exact.real_sub, Exact.real.injEq] at hdifference
    have hweighed : divergence? (.ok terms) = none := by
      simp [divergence?, hz, Scalar.isNaN]
    have hweight : categoryWeight (.ok terms) = terms.total := by
      simp [categoryWeight, hweighed]
    rw [hterms, hweight, hz]
    refine congrArg Exact.real ?_
    linarith
  | none =>
    rcases categoryWeight_eq (c.localTerms m i e (c.state.update i e x)) with
      hweight | ⟨terms, hterms, hweighed, hweight⟩
    · exact hweight
    · rw [hweight]
      by_contra hne
      have hfinite : Scalar.isFinite terms.total = true := by
        refine divergence?_eq_none hweighed (Bool.eq_false_iff.mpr fun hbottom => hne ?_)
        exact Exact.beq_negInfinity.mp hbottom
      have hcommit := hc.commit_of_total hm hi hterms hfinite
      have hsome : (m.lnDensity? (c.state.update i e x)).isSome :=
        Model.lnDensity?_isSome_iff.mpr ⟨_, hcommit.outputs_eq, hcommit.finiteAt⟩
      rw [hdensity] at hsome
      cases hsome

/-- A coherent chain is where the distribution of each element exists. -/
theorem Coherent.exists_resolve (hc : c.Coherent m) (hi : m.nodes[i]? = some node)
    (he : e < node.width) : ∃ d, m.resolve i e c.state = .ok d := by
  have hfinite := hc.lnPrior_finite hi he
  unfold Model.lnPriorElement at hfinite
  cases hresolve : m.resolve i e c.state with
  | ok d => exact ⟨d, rfl⟩
  | error fault =>
    rw [hresolve, Scalar.isFinite_negInfinity] at hfinite
    cases hfinite

variable {σ : Type} [RandomWords σ]

theorem unit_exact : (Random.unit : Random σ Exact).Always fun z =>
    ∃ u : ℝ, z = .real u ∧ 0 ≤ u ∧ u < 1 := by
  refine Random.Always.bind_any fun w => Random.Always.of_pure ?_
  have hword : ((w >>> 11).toNat : ℝ) < 9007199254740992 := by
    have hlt := w.toNat_lt
    have hshift : (w >>> 11).toNat < 9007199254740992 := by
      rw [UInt64.toNat_shiftRight]
      simp only [UInt64.reduceToNat, Nat.reduceMod, Nat.shiftRight_eq_div_pow]
      omega
    exact_mod_cast hshift
  refine ⟨(w >>> 11).toNat / 9007199254740992, ?_, by positivity, ?_⟩
  · rw [Exact.ofNat_eq, Exact.ofNat_eq, Exact.real_div (by norm_num)]
    norm_num
  · rw [div_lt_one (by norm_num)]
    exact hword

/-- Drawing a category takes one word, unless no category has any weight. -/
theorem run_drawCategory (m : Model Exact) (c : Chain Exact) (i e categories : Nat) (s : σ) :
    let lnWeights := (c.candidates m i e categories).map fun candidate => categoryWeight candidate.2
    let counted := c.countDivergences m i (c.candidates m i e categories)
    let largest := lnWeights.foldl Scalar.max (-Scalar.infinity)
    ((c.drawCategory m i e categories).run s).1 =
      if largest == -Scalar.infinity then (false, counted)
      else counted.commitCategory m i e
        (c.candidates m i e categories)[drawPosition lnWeights largest (Random.unit.run s).1]? := by
  unfold drawCategory
  dsimp only
  split <;> rfl

/-- A category that has some weight can be moved to. -/
theorem exists_commitCategory {d : Chain Exact} {state : State Exact} {y : ℝ}
    {t : Except EvaluationError (Terms Exact)} (h : categoryWeight t = Exact.ofLog (some y)) :
    ∃ terms, d.commitCategory m i e (some (state, t)) = (true, d.commit m i e state terms) := by
  rcases categoryWeight_eq t with hnone | ⟨terms, rfl, hweighed, _⟩
  · rw [hnone] at h
    cases h
  · exact ⟨terms, by simp [commitCategory, hweighed]⟩

/-- The log densities at the states that element `e` of node `i` can be moved to. -/
noncomputable def categoryDensity (m : Model Exact) (c : Chain Exact) (i e k : Nat) : Option ℝ :=
  m.lnDensity? (c.state.update i e (.real k))

/-- What a draw among `n` categories by `u` does to a chain. Where no category has a finite density, the
chain stays as it is, except for the divergences that were met. Otherwise it moves to the one category in
whose share `u` falls, which has some weight, and caches the terms there. -/
inductive DrawsCategory (m : Model Exact) (c : Chain Exact) (i e n : Nat) (u : ℝ) :
    Bool × Chain Exact → Prop where
  | stays (hnone : ∀ k < n, categoryDensity m c i e k = none) (divergences : Nat)
      (warnings : List Warning) : DrawsCategory m c i e n u
        (false, { c with divergences := divergences, warnings := warnings })
  | moves {largest : ℝ} {k : Nat} {d : Chain Exact}
      (hlargest : IsGreatest {y | ∃ j < n, categoryDensity m c i e j = some y} largest)
      (hdrawn : IsDrawn (fun j => relativeWeight largest (categoryDensity m c i e j)) n u k)
      (hunique : ∀ l, IsDrawn (fun j => relativeWeight largest (categoryDensity m c i e j)) n u l →
        l = k)
      (hpos : 0 < relativeWeight largest (categoryDensity m c i e k))
      (hstate : d.state = c.state.update i e (.real k)) (hd : d.Coherent m) :
      DrawsCategory m c i e n u (true, d)

/-- The weights of the categories, which are off by one and the same factor, draw one of them. -/
theorem drawCategory_draws (hm : m.WellFormed) (hc : c.Coherent m)
    (hi : m.nodes[i]? = some node) (he : e < node.width) (n : Nat) {s : σ} {u : ℝ}
    (hunit : (Random.unit.run s).1 = Exact.real u) (hu : 0 ≤ u) (hu' : u < 1) :
    DrawsCategory m c i e n u ((c.drawCategory m i e n).run s).1 := by
  obtain ⟨offset, hweight⟩ := categoryWeight_exact hm hc hi he
  let x (k : Nat) := (categoryDensity m c i e k).map (· - offset)
  have hx (k : Nat) : categoryWeight (c.localTerms m i e (c.state.update i e (Scalar.ofNat k))) =
      Exact.ofLog (x k) := hweight (.real k)
  have hlnWeights : (c.candidates m i e n).map (fun candidate => categoryWeight candidate.2) =
      (List.range n).map fun k => Exact.ofLog (x k) := by
    unfold candidates
    rw [List.map_map]
    exact List.map_congr_left fun k _ => hx k
  have hcoherent := drawCategory_coherent (e := e) hm hc hi n s
  obtain ⟨divergences, warnings, hcounted⟩ := countDivergences_eq m c i (c.candidates m i e n)
  rw [run_drawCategory, hlnWeights, hcounted, hunit] at hcoherent ⊢
  rcases foldl_max_ofLog x n with ⟨hnone, hfold⟩ | ⟨largest, hlargest, hfold⟩
  · rw [hfold, if_pos (by simp)]
    exact .stays (fun k hk => Option.map_eq_none_iff.mp (hnone k hk)) divergences warnings
  · rw [hfold, if_neg (by simp)] at hcoherent ⊢
    have hdrawn := isDrawn_drawPosition hlargest hu hu'
    generalize drawPosition ((List.range n).map fun k => Exact.ofLog (x k)) (.real largest)
      (.real u) = k at hdrawn hcoherent ⊢
    -- The drawn category has some weight, so that its terms exist and are committed.
    obtain ⟨y, hy⟩ : ∃ y, x k = some y := by
      refine Option.ne_none_iff_exists'.mp fun hnone => ?_
      have hpos := hdrawn.pos
      rw [hnone] at hpos
      exact lt_irrefl _ hpos
    have hterms := hx k
    rw [hy] at hterms
    obtain ⟨terms, hcommit⟩ := exists_commitCategory (m := m) (i := i) (e := e)
      (d := { c with divergences := divergences, warnings := warnings }) hterms
    rw [getElem?_candidates hdrawn.lt, hcommit] at hcoherent ⊢
    simp only [x, relativeWeight_map_sub] at hdrawn
    exact .moves (isGreatest_of_map_sub hlargest) hdrawn
      (fun l hl => hl.unique (fun j => relativeWeight_nonneg _ _) hdrawn) hdrawn.pos rfl hcoherent

/-- In exact arithmetic, a Gibbs step takes one uniform number and draws a category by it in proportion to
the joint density at the states that the categories lead to. -/
theorem gibbs_exact {p : Program Exact} (hp : p.Declared) (hm : p.compile = .ok m)
    (hc : c.Coherent m) (hi : m.nodes[i]? = some node) (hfamily : node.family = .categorical)
    (he : e < node.width) (s : σ) : ∃ (weights : Array Exact) (u : ℝ),
    m.resolve i e c.state = .ok (.categorical weights) ∧ (Random.unit.run s).1 = Exact.real u ∧
      0 ≤ u ∧ u < 1 ∧ DrawsCategory m c i e weights.size u ((c.gibbs m i e).run s).1 := by
  have hwf := Program.wellFormed_of_compile hp hm
  obtain ⟨d, hresolve⟩ := hc.exists_resolve hi he
  obtain ⟨_, _, _, _, hbuild, _⟩ := Model.exists_build_of_resolve hm hi hresolve
  have hcategorical := Distribution.family_of_build hbuild
  rw [hfamily] at hcategorical
  obtain ⟨u, hunit, hu, hu'⟩ := unit_exact s
  cases d with
  | categorical weights =>
    refine ⟨weights, u, hresolve, hunit, hu, hu', ?_⟩
    have hdraws := drawCategory_draws hwf hc hi he weights.size hunit hu hu'
    unfold gibbs
    rw [hresolve]
    exact hdraws
  | _ => cases hcategorical

end Chain

/-- Two sides, both of them equally likely. -/
noncomputable def evenSides : Distribution Exact := .categorical #[0.5, 0.5]

theorem evenSides_eq : evenSides = .categorical #[.real (1 / 2), .real (1 / 2)] := by
  rw [← Exact.half_eq]
  rfl

theorem evenSides_build :
    Distribution.build .categorical [0] (some [.real 1, .real 1]) = .ok evenSides := by
  have hfinite : ([.real 1, .real 1] : List Exact).any (fun w => !Scalar.isFinite w || w < 0) =
      false := by
    simp [Exact.isFinite_real, Exact.zero_eq]
  have hsum : Scalar.sum [.real 1, .real 1] = Exact.real 2 := by
    rw [show ([.real 1, .real 1] : List Exact) = [1, 1].map Exact.real from rfl, Exact.sum_map_real]
    norm_num
  have hpos : ¬ Scalar.sum [.real 1, .real 1] ≤ (0 : Exact) := by
    rw [hsum, Exact.zero_eq, Exact.real_le]
    norm_num
  rw [Distribution.build_categorical (List.cons_ne_nil _ _) hfinite hpos, hsum, evenSides_eq]
  simp

theorem evenSides_sampler : ∃ sums range, Sampler.ofDistribution evenSides =
    .ok (.categorical sums range) := by
  have hsums : Categorical.runningSums [Exact.real (1 / 2), .real (1 / 2)] =
      [.real (1 / 2), .real 1] := by
    simp [Categorical.runningSums, Exact.zero_eq]
    norm_num
  have hvalid : ([Exact.real (1 / 2), .real (1 / 2)] : List Exact).any (fun w => !(0 ≤ w)) = false := by
    simp [Exact.zero_eq]
  have hrange : ∃ range, Random.FloatRange.halfOpen 0 (Exact.real 1) = .ok range := by
    refine Random.FloatRange.exists_halfOpen ?_ ?_
    · simp [Exact.zero_eq]
    · rw [Exact.zero_eq, Exact.real_sub]
      exact Exact.isFinite_real _
  have htotal : (Exact.real 1 == 0) = false := by
    rw [Exact.zero_eq, Bool.eq_false_iff, ne_eq, Exact.beq_iff]
    exact fun h => one_ne_zero (Exact.real.inj h.1)
  obtain ⟨range, hrange⟩ := hrange
  refine ⟨Sampler.innerSums [Exact.real (1 / 2), .real (1 / 2)], range, ?_⟩
  rw [evenSides_eq]
  change Sampler.ofWeights [Exact.real (1 / 2), .real (1 / 2)] = _
  unfold Sampler.ofWeights
  simp only [hvalid, hsums, List.getLastD_cons, List.getLastD_nil, htotal, hrange]
  rfl

/-- The first side has a density. -/
theorem evenSides_lnDensity : Scalar.isFinite (evenSides.lnDensity (.real 0)) = true := by
  have hnan : Scalar.isNaN (Exact.real 0) = false := by simp [Scalar.isNaN]
  have hwhole : Scalar.isInteger (Exact.real 0) = true := (Exact.isInteger_real 0).mpr ⟨0, by simp⟩
  have hsupport : evenSides.support.contains (.real 0) = true := by
    simp [evenSides, Distribution.support, Distribution.family, Support.ofFamily, Support.contains,
      hwhole, Exact.zero_eq]
  have hindex : (Scalar.toUInt64 (Exact.real 0)).toNat = 0 := by
    simp [Scalar.toUInt64, Exact.toWord, Exact.truncate]
  have hlog : Scalar.log (Exact.real (1 / 2)) = .real (Real.log (1 / 2) / Real.log (Real.exp 1)) :=
    if_pos one_half_pos
  unfold Distribution.lnDensity
  rw [hnan, hsupport, if_neg (by decide)]
  simp only [evenSides_eq, hindex]
  exact hlog ▸ Exact.isFinite_real _

namespace Program

/-- A side that is one of two, both of them equally likely. -/
noncomputable def evenDraw : Program Exact where
  name := "even"
  inputs := [(⟨"side", .categorical, [.weights [.real 1, .real 1]], .scalar, false⟩, .secret)]
  outputs := [⟨"out", false, 1⟩]
  transformation arguments := .ok arguments
  observations := []

noncomputable def evenDrawModel : Model Exact := evenDraw.model [[]] [0] []

theorem evenDraw_declared : evenDraw.Declared := by
  intro input hinput
  cases List.mem_singleton.mp hinput
  exact .declare (Variable.declare_categorical "side" evenSides_build)

theorem evenDraw_nodes : ∃ side, evenDrawModel.nodes.toList = [side] ∧ side.width = 1 ∧
    side.family = .categorical ∧ side.literal = some evenSides :=
  ⟨_, rfl, rfl, rfl, congrArg (·.bind (·.toOption))
    (Variable.distribution?_categorical "side" .scalar false evenSides_build)⟩

theorem evenDraw_samplePrior {σ : Type} [RandomWords σ] :
    (evenDrawModel.samplePrior : Random σ _).Always fun drawn => ∃ x, drawn = .ok #[#[x]] := by
  obtain ⟨side, hnodes, hwidth, _, hliteral⟩ := evenDraw_nodes
  obtain ⟨sums, range, hsampler⟩ := evenSides_sampler
  have helement : Model.elementSampler side 0 #[] = .ok (.categorical sums range) :=
    Model.elementSampler_of_literal hliteral hsampler
  have hside : (Model.drawElements side #[] [0] : Random σ _).Always fun drawn =>
      ∃ x, drawn = .ok [x] ∧ True := by
    unfold Model.drawElements
    rw [helement]
    refine Random.Always.bind (Sampler.draw_of_isDirect rfl) ?_
    rintro _ ⟨x, rfl⟩
    exact Random.Always.of_pure ⟨x, rfl, trivial⟩
  unfold Model.samplePrior
  rw [hnodes]
  exact Exact.drawNodes_cons hwidth hside fun x _ => Random.Always.of_pure ⟨x, rfl⟩

theorem evenDraw_compile : evenDraw.compile = .ok evenDrawModel := by
  have hassemble : evenDraw.assemble = .ok evenDrawModel :=
    assemble_eq rfl rfl rfl (checkLiterals_eq_ok evenDraw_declared [0])
  refine compile_of_samplePrior hassemble (evenDraw_samplePrior.mono ?_)
  rintro drawn ⟨x, rfl⟩
  exact ⟨_, _, rfl, rfl⟩

/-- A chain at the first side. -/
theorem evenDraw_start : ∃ c : Chain Exact, c.Coherent evenDrawModel ∧ c.state = #[#[.real 0]] := by
  obtain ⟨side, hnodes, hwidth, _, hliteral⟩ := evenDraw_nodes
  have hprior : evenDrawModel.lnPriorElement 0 0 #[#[.real 0]] = evenSides.lnDensity (.real 0) := by
    unfold Model.lnPriorElement Model.resolve
    rw [← Array.getElem?_toList, hnodes]
    simp only [List.getElem?_cons_zero, Model.resolveNode, hliteral]
    rfl
  have hpriors : ∀ row ∈ (Chain.allLnPrior evenDrawModel #[#[.real 0]]).toList,
      row.all Scalar.isFinite = true := by
    intro row hrow
    have hrows : (Chain.allLnPrior evenDrawModel #[#[.real 0]]).toList =
        [[evenDrawModel.lnPriorElement 0 0 #[#[.real 0]]]] := rfl
    rw [hrows, List.mem_singleton] at hrow
    simp [hrow, hprior, evenSides_lnDensity]
  have hlikelihood : Scalar.isFinite (evenDrawModel.lnLikelihood #[#[.real 0]] [[.real 0]]) = true :=
    Exact.isFinite_iff.mpr ⟨0, Exact.zero_eq⟩
  obtain ⟨c, hc, hstate⟩ : ∃ c, Chain.start? evenDrawModel 0 #[#[.real 0]] = some c ∧
      c.state = #[#[.real 0]] := Chain.exists_start? rfl hlikelihood hpriors
  have hfits : evenDrawModel.Fits #[#[.real 0]] := rfl
  exact ⟨c, Chain.start?_coherent hfits hc, hstate⟩

/-- One of two sides is drawn. -/
theorem evenDraw_gibbs : evenDraw.Declared ∧ evenDraw.compile = .ok evenDrawModel ∧
    ∃ (c : Chain Exact) (side : Node Exact) (weights : Array Exact) (u : ℝ),
      c.Coherent evenDrawModel ∧ evenDrawModel.nodes[0]? = some side ∧
      side.family = .categorical ∧ 0 < side.width ∧
      evenDrawModel.resolve 0 0 c.state = .ok (.categorical weights) ∧
      (Random.unit.run (Xoshiro.ofSeed 0)).1 = Exact.real u ∧ 0 ≤ u ∧ u < 1 ∧
      Chain.DrawsCategory evenDrawModel c 0 0 weights.size u
        ((c.gibbs evenDrawModel 0 0).run (Xoshiro.ofSeed 0)).1 := by
  obtain ⟨c, hc, _⟩ := evenDraw_start
  obtain ⟨side, hnodes, hwidth, hfamily, _⟩ := evenDraw_nodes
  have hside : evenDrawModel.nodes[0]? = some side := by rw [← Array.getElem?_toList, hnodes]; rfl
  have hpos : 0 < side.width := hwidth ▸ Nat.one_pos
  obtain ⟨weights, u, hresolve, hunit, hu, hu', hdraws⟩ :=
    Chain.gibbs_exact evenDraw_declared evenDraw_compile hc hside hfamily hpos (Xoshiro.ofSeed 0)
  exact ⟨evenDraw_declared, evenDraw_compile, c, side, weights, u, hc, hside, hfamily, hpos,
    hresolve, hunit, hu, hu', hdraws⟩

end Program

end InfoFlow
