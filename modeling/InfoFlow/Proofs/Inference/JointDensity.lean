import InfoFlow.Proofs.Inference.Moves
import InfoFlow.Proofs.Model.Observed
import InfoFlow.Proofs.Scalar.Exact
import InfoFlow.Proofs.Scalar.Words
import Mathlib.Algebra.BigOperators.Group.Finset.Basic
import Mathlib.Tactic.Linarith

namespace InfoFlow

open Finset

namespace Model

variable {α : Type} [Scalar α]

/-- The log prior densities of all elements of all nodes. -/
def lnPriorTerms (m : Model α) (state : State α) : List α :=
  m.nodes.toList.zipIdx.flatMap fun (node, i) => m.lnPriorElements i node.width state

/-- The log of the joint density of a state and the observations of its outputs. -/
def lnJoint (m : Model α) (state : State α) (outputs : List (List α)) : α :=
  Scalar.sum (m.lnPriorTerms state) + m.lnLikelihood state outputs

/-- The log density of every element and the log-likelihood are finite. -/
def FiniteAt (m : Model α) (state : State α) (outputs : List (List α)) : Prop :=
  (∀ t ∈ m.lnPriorTerms state, Scalar.isFinite t = true) ∧
    Scalar.isFinite (m.lnLikelihood state outputs) = true

theorem mem_lnPriorTerms_iff {m : Model α} {state : State α} {t : α} :
    t ∈ m.lnPriorTerms state ↔ ∃ (i e : Nat) (node : Node α), m.nodes[i]? = some node ∧
      e < node.width ∧ m.lnPriorElement i e state = t := by
  unfold lnPriorTerms lnPriorElements
  simp only [List.mem_flatMap, List.mem_map, List.mem_range, Prod.exists,
    List.mem_zipIdx_iff_getElem?, Array.getElem?_toList]
  constructor
  · rintro ⟨node, i, hi, e, he, ht⟩
    exact ⟨i, e, node, hi, he, ht⟩
  · rintro ⟨i, e, node, hi, he, ht⟩
    exact ⟨node, i, hi, e, he, ht⟩

/-- The number of elements of a node; none for a node that does not exist. -/
def widthAt (m : Model α) (i : Nat) : Nat := (m.nodes[i]?.map Node.width).getD 0

end Model

namespace Model

variable {m : Model Exact} {s : State Exact} {outputs : List (List Exact)}

/-- The log prior of the elements of a node, as a real number. -/
noncomputable def rowSum (m : Model Exact) (s : State Exact) (i : Nat) : ℝ :=
  ∑ e ∈ range (m.widthAt i), (m.lnPriorElement i e s).toReal

private theorem sum_map_range (f : Nat → ℝ) (n : Nat) :
    ((List.range n).map f).sum = ∑ k ∈ range n, f k := by
  induction n with
  | zero => simp
  | succ n ih => simp [List.range_succ, Finset.sum_range_succ, ih]

theorem sum_toReal_lnPriorElements {i : Nat} {node : Node Exact} (hi : m.nodes[i]? = some node) :
    ((m.lnPriorElements i node.width s).map Exact.toReal).sum = m.rowSum s i := by
  unfold lnPriorElements rowSum widthAt
  rw [List.map_map, sum_map_range, hi]
  rfl

theorem sum_toReal_lnPriorTerms :
    ((m.lnPriorTerms s).map Exact.toReal).sum = ∑ i ∈ range m.nodes.size, m.rowSum s i := by
  have hrows : m.nodes.toList.zipIdx.map (fun (node, i) =>
      ((m.lnPriorElements i node.width s).map Exact.toReal).sum) =
        (List.range m.nodes.size).map (m.rowSum s) := by
    refine List.ext_getElem? fun i => ?_
    simp only [List.getElem?_map, List.getElem?_zipIdx, Array.getElem?_toList, Option.map_map]
    cases hi : m.nodes[i]? with
    | none =>
      have hout : m.nodes.size ≤ i := Array.getElem?_eq_none_iff.mp hi
      simp [hout]
    | some node =>
      have hlt : i < m.nodes.size := (Array.getElem?_eq_some_iff.mp hi).1
      simp [hlt, sum_toReal_lnPriorElements hi]
  rw [← sum_map_range, ← hrows]
  unfold lnPriorTerms
  rw [List.map_flatMap, List.flatMap_def, List.sum_flatten, List.map_map]
  rfl

/-- Where all terms are finite, the joint log density is a sum of real numbers. -/
theorem lnJoint_eq (h : m.FiniteAt s outputs) :
    m.lnJoint s outputs =
      .real (∑ i ∈ range m.nodes.size, m.rowSum s i + (m.lnLikelihood s outputs).toReal) := by
  unfold lnJoint
  rw [Exact.sum_eq h.1, Exact.eq_real_toReal h.2, Exact.real_add, sum_toReal_lnPriorTerms]
  rfl

section Update

variable {i e : Nat} {node : Node Exact} {x : Exact}

/-- The prior of a node that neither is the moved one nor depends on it stays. -/
theorem rowSum_update_of_ne (hm : m.WellFormed) (hi : m.nodes[i]? = some node) {k : Nat}
    (hne : k ≠ i) (hchild : k ∉ node.children) :
    m.rowSum (s.update i e x) k = m.rowSum s k := by
  unfold rowSum
  refine Finset.sum_congr rfl fun l _ => ?_
  cases hk : m.nodes[k]? with
  | none => simp [lnPriorElement, resolve, hk, State.value_update_of_ne (.inl hne)]
  | some other =>
    have hfree : .node i ∉ other.bindings := fun h =>
      hchild ((hm.mem_children_iff hi hk).mpr h)
    rw [lnPriorElement_update hk hfree (.inl hne)]

/-- Of the moved node itself, only the prior of the moved element changes. -/
theorem rowSum_update_self (hm : m.WellFormed) (hi : m.nodes[i]? = some node)
    (he : e < node.width) :
    m.rowSum (s.update i e x) i - m.rowSum s i =
      (m.lnPriorElement i e (s.update i e x)).toReal - (m.lnPriorElement i e s).toReal := by
  have hfree : .node i ∉ node.bindings := fun h => (hm.binding_lt hi h).false
  have hmem : e ∈ range (m.widthAt i) := by
    unfold widthAt
    rw [hi]
    exact Finset.mem_range.mpr he
  unfold rowSum
  rw [← Finset.sum_sub_distrib]
  refine Finset.sum_eq_single_of_mem e hmem fun l _ hl => ?_
  rw [lnPriorElement_update hi hfree (.inr hl), sub_self]

/-- A move changes the prior of the moved element and of the children of its node, each of them once,
and nothing else. -/
theorem sum_rowSum_update (hm : m.WellFormed) (hi : m.nodes[i]? = some node)
    (he : e < node.width) :
    ∑ k ∈ range m.nodes.size, m.rowSum (s.update i e x) k -
        ∑ k ∈ range m.nodes.size, m.rowSum s k =
      ((m.lnPriorElement i e (s.update i e x)).toReal - (m.lnPriorElement i e s).toReal) +
        ((node.children.map (m.rowSum (s.update i e x))).sum -
          (node.children.map (m.rowSum s)).sum) := by
  have hfresh : i ∉ node.children.toFinset := by
    rw [List.mem_toFinset]
    exact fun h => (hm.lt_of_mem_children hi h).false
  have hsubset : insert i node.children.toFinset ⊆ range m.nodes.size := by
    intro k hk
    rw [Finset.mem_insert, List.mem_toFinset] at hk
    rw [Finset.mem_range]
    rcases hk with rfl | hk
    · exact (Array.getElem?_eq_some_iff.mp hi).1
    · exact hm.child_lt_size hi hk
  have hsum (f : Nat → ℝ) : (node.children.map f).sum = ∑ k ∈ node.children.toFinset, f k :=
    (List.sum_toFinset f (hm.children_nodup hi)).symm
  rw [← Finset.sum_sub_distrib, ← Finset.sum_subset hsubset, Finset.sum_insert hfresh,
    rowSum_update_self hm hi he, Finset.sum_sub_distrib, hsum, hsum]
  intro k _ hk
  rw [Finset.mem_insert, List.mem_toFinset, not_or] at hk
  rw [rowSum_update_of_ne hm hi hk.1 hk.2, sub_self]

end Update

end Model

namespace Chain

variable {m : Model Exact} {c : Chain Exact} {i e : Nat} {node : Node Exact} {x : Exact}
  {outputs : List (List Exact)} {terms : Terms Exact}

theorem Coherent.finiteAt (hc : c.Coherent m) : m.FiniteAt c.state c.outputs := by
  refine ⟨fun t ht => ?_, ?_⟩
  · obtain ⟨i, e, node, hi, he, rfl⟩ := Model.mem_lnPriorTerms_iff.mp ht
    exact hc.lnPrior_finite hi he
  · rw [← hc.lnLikelihood_eq]
    exact hc.lnLikelihood_finite

/-- The local total at the state of a chain, as a real number. -/
theorem localTotal_eq (hm : m.WellFormed) (hc : c.Coherent m) (hi : m.nodes[i]? = some node)
    (he : e < node.width) :
    c.localTotal m i e = .real ((m.lnPriorElement i e c.state).toReal +
      (node.children.map (m.rowSum c.state)).sum +
        (m.lnLikelihood c.state c.outputs).toReal) := by
  have hown : (c.lnPrior.getD i []).getD e 0 = m.lnPriorElement i e c.state := by
    rw [Array.getD_eq_getD_getElem?, hc.lnPrior_eq hi]
    simp [he]
  have hrows : node.children.map (fun child => Scalar.sum (c.lnPrior.getD child [])) =
      node.children.map fun child => Exact.real (m.rowSum c.state child) := by
    refine List.map_congr_left fun k hk => ?_
    obtain ⟨child, hchild⟩ := hm.exists_child hi hk
    have hrow : c.lnPrior.getD k [] = m.lnPriorElements k child.width c.state := by
      rw [Array.getD_eq_getD_getElem?, hc.lnPrior_eq hchild]
      rfl
    rw [hrow, Exact.sum_eq, Model.sum_toReal_lnPriorElements hchild]
    intro t ht
    obtain ⟨l, hl, rfl⟩ := List.mem_map.mp ht
    exact hc.lnPrior_finite hchild (List.mem_range.mp hl)
  have hsum : Scalar.sum (node.children.map fun child => Exact.real (m.rowSum c.state child)) =
      .real (node.children.map (m.rowSum c.state)).sum := by
    rw [Exact.sum_eq]
    · rw [List.map_map]
      rfl
    · intro t ht
      obtain ⟨k, _, rfl⟩ := List.mem_map.mp ht
      exact Exact.isFinite_iff.mpr ⟨_, rfl⟩
  unfold localTotal
  simp only
  rw [children_eq hi, hown, hrows, hsum, hc.lnLikelihood_eq,
    Exact.eq_real_toReal (hc.lnPrior_finite hi he), Exact.eq_real_toReal hc.finiteAt.2]
  rfl

/-- The local total of a move to a state with finite terms, as a real number. -/
theorem total_eq (hm : m.WellFormed) (hc : c.Coherent m) (hi : m.nodes[i]? = some node)
    (he : e < node.width) (hterms : terms.At m c i e (c.state.update i e x))
    (hfinite : m.FiniteAt (c.state.update i e x) (terms.outputs.getD c.outputs)) :
    terms.total = .real ((m.lnPriorElement i e (c.state.update i e x)).toReal +
      (node.children.map (m.rowSum (c.state.update i e x))).sum +
        (m.lnLikelihood (c.state.update i e x) (terms.outputs.getD c.outputs)).toReal) := by
  have hrows : terms.children = node.children.map fun child =>
      m.lnPriorElements child (m.widthAt child) (c.state.update i e x) := by
    rw [hterms.children_eq, children_eq hi]
    refine List.map_congr_left fun k hk => ?_
    obtain ⟨child, hchild⟩ := hm.exists_child hi hk
    rw [(hc.fits.update).size_getD hchild]
    simp [Model.widthAt, hchild]
  have hpriors {k l : Nat} {other : Node Exact} (hk : m.nodes[k]? = some other)
      (hl : l < other.width) :
      Scalar.isFinite (m.lnPriorElement k l (c.state.update i e x)) = true :=
    hfinite.1 _ (Model.mem_lnPriorTerms_iff.mpr ⟨k, l, other, hk, hl, rfl⟩)
  have hsum : Scalar.sum terms.children.flatten =
      .real (node.children.map (m.rowSum (c.state.update i e x))).sum := by
    rw [hrows, Exact.sum_eq]
    · rw [List.map_flatten, List.sum_flatten, List.map_map, List.map_map]
      refine congrArg (Exact.real ∘ List.sum) (List.map_congr_left fun k hk => ?_)
      obtain ⟨child, hchild⟩ := hm.exists_child hi hk
      rw [← Model.sum_toReal_lnPriorElements hchild]
      simp [Model.widthAt, hchild]
    · intro t ht
      obtain ⟨row, hrow, ht⟩ := List.mem_flatten.mp ht
      obtain ⟨k, hk, rfl⟩ := List.mem_map.mp hrow
      obtain ⟨l, hl, rfl⟩ := List.mem_map.mp ht
      obtain ⟨child, hchild⟩ := hm.exists_child hi hk
      refine hpriors hchild ?_
      simpa [Model.widthAt, hchild] using hl
  unfold Terms.total
  rw [hterms.own_eq, hsum, hterms.lnLikelihood_eq, Exact.eq_real_toReal (hpriors hi he),
    Exact.eq_real_toReal hfinite.2]
  rfl

/-- Where the outputs exist and the moved element is possible, a move can be weighed. -/
theorem exists_localTerms {state : State Exact} (hevaluate : m.evaluate state = .ok outputs)
    (hown : (m.lnPriorElement i e state == -Scalar.infinity) = false) :
    ∃ terms, c.localTerms m i e state = .ok terms ∧ (terms.own == -Scalar.infinity) = false := by
  unfold localTerms
  simp only [hown]
  by_cases hargument : m.arguments.contains i
  · simp only [hargument, hevaluate]
    exact ⟨_, rfl, hown⟩
  · simp only [hargument]
    exact ⟨_, rfl, hown⟩

/-- The terms of a move to a state with finite log densities differ from the cached ones by as much as
the joint log densities do. -/
theorem total_sub_localTotal (hm : m.WellFormed) (hc : c.Coherent m)
    (hi : m.nodes[i]? = some node) (he : e < node.width)
    (hevaluate : m.evaluate (c.state.update i e x) = .ok outputs)
    (hfinite : m.FiniteAt (c.state.update i e x) outputs) :
    ∃ terms, c.localTerms m i e (c.state.update i e x) = .ok terms ∧
      Scalar.isFinite terms.total = true ∧
      terms.total - c.localTotal m i e =
        m.lnJoint (c.state.update i e x) outputs - m.lnJoint c.state c.outputs ∧
      Scalar.isFinite (terms.total - c.localTotal m i e) = true := by
  have hown := hfinite.1 _ (Model.mem_lnPriorTerms_iff.mpr ⟨i, e, node, hi, he, rfl⟩)
  obtain ⟨terms, hterms, hpossible⟩ :=
    exists_localTerms (c := c) hevaluate (Scalar.isFinite_iff.mp hown).2.2
  have hat := localTerms_spec hm hc hi hterms hpossible
  have houtputs : terms.outputs.getD c.outputs = outputs := by
    have heq := hat.outputs_eq
    rw [hevaluate] at heq
    exact (Except.ok.inj heq).symm
  have htotal := total_eq hm hc hi he hat (houtputs ▸ hfinite)
  rw [houtputs] at htotal
  refine ⟨terms, hterms, Exact.isFinite_iff.mpr ⟨_, htotal⟩, ?_, ?_⟩
  · have hdifference := Model.sum_rowSum_update (s := c.state) (x := x) hm hi he
    rw [htotal, localTotal_eq hm hc hi he, Model.lnJoint_eq hfinite, Model.lnJoint_eq hc.finiteAt,
      Exact.real_sub, Exact.real_sub]
    congr 1
    linarith
  · rw [htotal, localTotal_eq hm hc hi he, Exact.real_sub]
    exact Exact.isFinite_iff.mpr ⟨_, rfl⟩

variable {σ : Type} [RandomWords σ]

omit [RandomWords σ] in
private theorem run_move (decision : Random σ Bool) (moved kept : Chain Exact) (s : σ) :
    ((do if ← decision then return (true, moved) else return (false, kept) :
      Random σ (Bool × Chain Exact)).run s).1.1 = (decision.run s).1 := by
  change ((if (decision.run s).1 then pure (true, moved) else pure (false, kept) :
    Random σ (Bool × Chain Exact)).run (decision.run s).2).1.1 = (decision.run s).1
  cases (decision.run s).1 <;> rfl

/-- A move that can be weighed is accepted if it does not lower the log density, or else if the
logarithm of the uniform draw is below the difference. -/
theorem metropolis_accepts (hterms : c.localTerms m i e (c.state.update i e x) = .ok terms)
    (hfinite : Scalar.isFinite terms.total = true) (s : σ) :
    ((c.metropolis m i e x).run s).1.1 = true ↔
      0 ≤ terms.total - c.localTotal m i e ∨
        Scalar.log (Random.unit.run s).1 < terms.total - c.localTotal m i e := by
  have hdivergence : divergence? (.ok terms) = none := by
    obtain ⟨hnan, habove, _⟩ := Scalar.isFinite_iff.mp hfinite
    unfold divergence?
    simp only [hnan, habove, Bool.or_self]
    rfl
  unfold metropolis
  simp only [hterms, hdivergence]
  rw [run_move]
  unfold accepts
  by_cases hle : 0 ≤ terms.total - c.localTotal m i e
  · simp only [hle, if_true, true_or, iff_true]
    rfl
  · simp only [hle, if_false, false_or]
    exact decide_eq_true_iff

/-- In exact arithmetic, proposing a value for an element compares the joint densities at the two states:
the move is accepted if the density does not fall, or else if the logarithm of the uniform draw is below
the difference. Where the outputs do not exist or some log density is not finite, it is rejected. -/
theorem metropolis_exact {p : Program Exact} (hp : p.Declared) (hm : p.compile = .ok m)
    (hc : c.Coherent m) (hi : m.nodes[i]? = some node) (he : e < node.width) (x : Exact) (s : σ) :
    let state := c.state.update i e x
    let moved := ((c.metropolis m i e x).run s).1
    (∀ outputs, m.evaluate state = .ok outputs → m.FiniteAt state outputs →
      ∃ terms, c.localTerms m i e state = .ok terms ∧
        terms.total - c.localTotal m i e =
          m.lnJoint state outputs - m.lnJoint c.state c.outputs ∧
        Scalar.isFinite (terms.total - c.localTotal m i e) = true ∧
        (moved.1 = true ↔ 0 ≤ terms.total - c.localTotal m i e ∨
          Scalar.log (Random.unit.run s).1 < terms.total - c.localTotal m i e)) ∧
    ((∀ outputs, m.evaluate state = .ok outputs → ¬ m.FiniteAt state outputs) →
      moved.1 = false) ∧
    moved.2.state = if moved.1 then state else c.state := by
  intro state moved
  have hwf := Program.wellFormed_of_compile hp hm
  have hcases := metropolis_cases m c i e x s
  refine ⟨fun outputs hevaluate hfinite => ?_, fun hnot => ?_, ?_⟩
  · obtain ⟨terms, hterms, htotal, hdifference, hreal⟩ :=
      total_sub_localTotal hwf hc hi he hevaluate hfinite
    exact ⟨terms, hterms, hdifference, hreal, metropolis_accepts hterms htotal s⟩
  · rcases hcases with ⟨hrejected, _⟩ | ⟨_, terms, hterms, htotal, _⟩
    · exact hrejected
    · have hcommit := hc.commit_of_total hwf hi hterms htotal
      exact absurd hcommit.finiteAt (hnot _ hcommit.outputs_eq)
  · rcases hcases with ⟨hrejected, hkept | ⟨reason, hdiverged⟩⟩ | ⟨haccepted, terms, _, _, hcommit⟩
    · simp only [moved, hrejected, hkept]
      rfl
    · simp only [moved, hrejected, hdiverged]
      rfl
    · simp only [moved, haccepted, hcommit]
      rfl

/-- A coin that shows 1 three times out of four. -/
noncomputable def loadedCoin : Program Exact where
  name := "loaded"
  inputs := [(⟨"coin", .bernoulli, [.value (.real (3 / 4))], .scalar, false⟩, .secret)]
  outputs := [⟨"side", true, 1⟩]
  transformation arguments := .ok arguments
  observations := []

noncomputable def loadedCoinModel : Model Exact := loadedCoin.model [[]] [0] []

theorem loadedCoin_declared : loadedCoin.Declared := by
  intro input hinput
  cases List.mem_singleton.mp hinput
  exact .declare (Exact.declare_bernoulli "coin" (by norm_num) (by norm_num))

theorem loadedCoin_nodes : ∃ coin, loadedCoinModel.nodes.toList = [coin] ∧ coin.width = 1 ∧
    coin.literal = some (.bernoulli (.real (3 / 4))) :=
  ⟨_, rfl, rfl, congrArg (·.bind (·.toOption))
    (Exact.distribution?_bernoulli "coin" false (by norm_num) (by norm_num))⟩

theorem loadedCoin_compile : loadedCoin.compile = .ok loadedCoinModel := by
  have hassemble : loadedCoin.assemble = .ok loadedCoinModel :=
    Program.assemble_eq rfl rfl rfl (Program.checkLiterals_eq_ok loadedCoin_declared [0])
  have hprior : (loadedCoinModel.samplePrior : Random Xoshiro _).Always fun drawn =>
      ∃ x : ℝ, drawn = .ok #[#[.real x]] := by
    obtain ⟨coin, hnodes, hwidth, hliteral⟩ := loadedCoin_nodes
    unfold Model.samplePrior
    rw [hnodes]
    exact Exact.drawNodes_bernoulli_cons hwidth hliteral fun x => Random.Always.of_pure ⟨x, rfl⟩
  refine Program.compile_of_samplePrior hassemble (hprior.mono ?_)
  rintro drawn ⟨x, rfl⟩
  exact ⟨_, _, rfl, rfl⟩

/-- The log-density of a side is that of the coin. -/
theorem loadedCoin_lnPriorElement (x : ℝ) : loadedCoinModel.lnPriorElement 0 0 #[#[.real x]] =
    (Distribution.bernoulli (.real (3 / 4))).lnDensity (.real x) := by
  obtain ⟨coin, hnodes, _, hliteral⟩ := loadedCoin_nodes
  unfold Model.lnPriorElement Model.resolve
  rw [← Array.getElem?_toList, hnodes]
  simp only [List.getElem?_cons_zero, Model.resolveNode, hliteral]
  rfl

theorem loadedCoin_lnPriorTerms (x : ℝ) : loadedCoinModel.lnPriorTerms #[#[.real x]] =
    [(Distribution.bernoulli (.real (3 / 4))).lnDensity (.real x)] := by
  rw [← loadedCoin_lnPriorElement]
  rfl

theorem loadedCoin_lnDensity_one : (Distribution.bernoulli (.real (3 / 4))).lnDensity (Exact.real 1) =
    .real (Real.log (3 / 4)) := by
  rw [Exact.lnDensity_bernoulli, Exact.log_real (by norm_num)]

theorem loadedCoin_lnDensity_zero : (Distribution.bernoulli (.real (3 / 4))).lnDensity (Exact.real 0) =
    .real (Real.log (1 / 4)) := by
  have hinteger : Scalar.isInteger (Exact.real 0) = true := by simpa using Exact.isInteger_intCast 0
  have hsupport : (Distribution.bernoulli (.real (3 / 4))).support.contains (Exact.real 0) = true := by
    simp [Distribution.support, Distribution.family, Support.ofFamily, Support.contains, hinteger,
      Exact.zero_eq, Exact.one_eq]
  have hnan : Scalar.isNaN (Exact.real 0) = false := by simp [Scalar.isNaN]
  have hlog : Scalar.log (1 - Exact.real (3 / 4)) = .real (Real.log (1 / 4)) := by
    rw [Exact.one_eq, Exact.real_sub, Exact.log_real (by norm_num)]
    norm_num
  refine Eq.trans ?_ hlog
  unfold Distribution.lnDensity
  simp [hnan, hsupport, Exact.one_eq]

/-- Both sides have a finite log density. -/
theorem loadedCoin_finiteAt {x density : ℝ}
    (h : (Distribution.bernoulli (.real (3 / 4))).lnDensity (Exact.real x) = .real density) :
    loadedCoinModel.FiniteAt #[#[.real x]] [[.real x]] ∧
      loadedCoinModel.lnJoint #[#[.real x]] [[.real x]] = .real density := by
  have hterms : loadedCoinModel.lnPriorTerms #[#[.real x]] = [.real density] :=
    (loadedCoin_lnPriorTerms x).trans (congrArg (fun t => [t]) h)
  have hlikelihood : loadedCoinModel.lnLikelihood #[#[.real x]] [[.real x]] = .real 0 := Exact.zero_eq
  have hfinite : ∀ t ∈ loadedCoinModel.lnPriorTerms #[#[.real x]], Scalar.isFinite t = true := by
    rw [hterms]
    exact List.forall_mem_singleton.mpr (Exact.isFinite_real density)
  refine ⟨⟨hfinite, hlikelihood ▸ Exact.isFinite_real 0⟩, ?_⟩
  unfold Model.lnJoint
  rw [Exact.sum_eq hfinite, hterms, hlikelihood, Exact.real_add]
  simp [Exact.toReal]

/-- A chain at the side 0. -/
theorem loadedCoin_start : ∃ c : Chain Exact, c.Coherent loadedCoinModel ∧ c.state = #[#[.real 0]] := by
  have hpriors : ∀ row ∈ (allLnPrior loadedCoinModel #[#[.real 0]]).toList,
      row.all Scalar.isFinite = true := by
    intro row hrow
    have hrows : (allLnPrior loadedCoinModel #[#[.real 0]]).toList =
        [[loadedCoinModel.lnPriorElement 0 0 #[#[.real 0]]]] := rfl
    rw [hrows, List.mem_singleton] at hrow
    simp [hrow, loadedCoin_lnPriorElement, loadedCoin_lnDensity_zero, Exact.isFinite_real]
  obtain ⟨c, hc, hstate⟩ : ∃ c, start? loadedCoinModel 0 #[#[.real 0]] = some c ∧
      c.state = #[#[.real 0]] :=
    exists_start? rfl (loadedCoin_finiteAt loadedCoin_lnDensity_zero).1.2 hpriors
  have hfits : loadedCoinModel.Fits #[#[.real 0]] := rfl
  exact ⟨c, start?_coherent hfits hc, hstate⟩

/-- A coin that shows 0 is proposed to show 1, which is three times as likely. -/
theorem loadedCoin_metropolis :
    loadedCoin.Declared ∧ loadedCoin.compile = .ok loadedCoinModel ∧
      ∃ c : Chain Exact, c.Coherent loadedCoinModel ∧ c.state = #[#[.real 0]] ∧
        loadedCoinModel.lnJoint #[#[.real 1]] [[.real 1]] - loadedCoinModel.lnJoint c.state c.outputs =
          .real (Real.log 3) ∧
        ((c.metropolis loadedCoinModel 0 0 (.real 1) : Random Xoshiro _).run (.ofSeed 0)).1.1 = true ∧
        ((c.metropolis loadedCoinModel 0 0 (.real 1) : Random Xoshiro _).run
          (.ofSeed 0)).1.2.state = #[#[.real 1]] := by
  obtain ⟨c, hc, hstate⟩ := loadedCoin_start
  obtain ⟨coin, hnodes, hwidth, _⟩ := loadedCoin_nodes
  have hcoin : loadedCoinModel.nodes[0]? = some coin := by
    rw [← Array.getElem?_toList, hnodes]
    rfl
  have houtputs : c.outputs = [[.real 0]] := by
    have hevaluate := hc.outputs_eq
    rw [hstate] at hevaluate
    exact (Except.ok.inj hevaluate).symm
  have hmoved : c.state.update 0 0 (.real 1) = #[#[.real 1]] := by
    rw [hstate]
    rfl
  obtain ⟨hfinite, hnew⟩ := loadedCoin_finiteAt loadedCoin_lnDensity_one
  have hold := (loadedCoin_finiteAt loadedCoin_lnDensity_zero).2
  have hdifference : loadedCoinModel.lnJoint #[#[.real 1]] [[.real 1]] -
      loadedCoinModel.lnJoint c.state c.outputs = .real (Real.log 3) := by
    rw [hstate, houtputs, hnew, hold, Exact.real_sub, ← Real.log_div (by norm_num) (by norm_num)]
    norm_num
  obtain ⟨hweighed, -, hkept⟩ := metropolis_exact loadedCoin_declared loadedCoin_compile hc hcoin
    (hwidth ▸ Nat.one_pos) (.real 1) (Xoshiro.ofSeed 0)
  rw [hmoved] at hweighed hkept
  obtain ⟨terms, -, hterms, -, haccepted⟩ := hweighed [[.real 1]] rfl hfinite
  have hmove := haccepted.mpr (.inl (by
    rw [hterms, hdifference, Exact.zero_eq, Exact.real_le]
    exact Real.log_nonneg (by norm_num)))
  rw [hmove, if_pos rfl] at hkept
  exact ⟨loadedCoin_declared, loadedCoin_compile, c, hc, hstate, hdifference, hmove, hkept⟩

end Chain

end InfoFlow
