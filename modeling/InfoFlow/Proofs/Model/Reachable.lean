import InfoFlow.Proofs.Model.Compile
import InfoFlow.Proofs.Model.Draws
import Mathlib.Logic.Relation

namespace InfoFlow.Model

variable {α : Type} {m : Model α}

/-- A parameter of node `j` is bound to node `i`. -/
def IsParent (m : Model α) (i j : Nat) : Prop :=
  ∃ child, m.nodes[j]? = some child ∧ .node i ∈ child.bindings

/-- Node `j` is node `i`, or one of its descendants. -/
def IsAncestorOrSelf (m : Model α) : Nat → Nat → Prop := Relation.ReflTransGen m.IsParent

/-- Some argument of the transformation is the node or descends from it. -/
def Reaches (m : Model α) (i : Nat) : Prop := ∃ a ∈ m.arguments, m.IsAncestorOrSelf i a

theorem isParent_iff (hm : m.WellFormed) {i j : Nat} {parent : Node α}
    (hi : m.nodes[i]? = some parent) : m.IsParent i j ↔ j ∈ parent.children := by
  constructor
  · rintro ⟨child, hj, hmem⟩
    exact (hm.mem_children_iff hi hj).mpr hmem
  · intro hmem
    obtain ⟨child, hj⟩ := hm.exists_child hi hmem
    exact ⟨child, hj, (hm.mem_children_iff hi hj).mp hmem⟩

/-- A node reaches an argument if it is one, or if one of its children does. -/
theorem reaches_iff (hm : m.WellFormed) {i : Nat} {node : Node α} (hi : m.nodes[i]? = some node) :
    m.Reaches i ↔ node.isHyper = false ∨ ∃ c ∈ node.children, m.Reaches c := by
  constructor
  · rintro ⟨a, ha, hpath⟩
    rcases Relation.ReflTransGen.cases_head hpath with rfl | ⟨c, hc, hrest⟩
    · obtain ⟨found, hfound, hhyper⟩ := hm.mem_arguments_iff.mp ha
      rw [hi] at hfound
      cases hfound
      exact .inl hhyper
    · exact .inr ⟨c, (isParent_iff hm hi).mp hc, a, ha, hrest⟩
  · rintro (hhyper | ⟨c, hc, a, ha, hpath⟩)
    · exact ⟨i, hm.mem_arguments_iff.mpr ⟨node, hi, hhyper⟩, .refl⟩
    · exact ⟨a, ha, .head ((isParent_iff hm hi).mpr hc) hpath⟩

/-- Whether a node reaches an argument, from what is known of the nodes after it. -/
def reachesFrom (reached : Array Bool) (node : Node α) : Bool :=
  !node.isHyper || node.children.any fun c => reached.getD c false

/-- The pass has decided the nodes it has come to. The induction is on the nodes that are left to the
end, where children have been decided before their parents. -/
private theorem foldr_reachable (hm : m.WellFormed) (nodes : List (Node α)) (start : Nat)
    (hnodes : m.nodes.toList.drop start = nodes) :
    let reached := (nodes.zipIdx start).foldr
      (fun (node, i) reached => reached.setIfInBounds i (reachesFrom reached node))
      (Array.replicate m.nodes.size false)
    reached.size = m.nodes.size ∧
      ∀ i, start ≤ i → i < m.nodes.size → (reached.getD i false = true ↔ m.Reaches i) := by
  induction nodes generalizing start with
  | nil =>
    have hstart : m.nodes.size ≤ start := by simpa using List.drop_eq_nil_iff.mp hnodes
    exact ⟨by simp, fun i hi hlt => absurd hlt (by omega)⟩
  | cons node nodes ih =>
    obtain ⟨hsize, hdecided⟩ := ih (start + 1) (by rw [← List.tail_drop, hnodes]; rfl)
    have hnode : m.nodes[start]? = some node := by
      have hhead := congrArg List.head? hnodes
      simpa [List.head?_drop] using hhead
    simp only [List.zipIdx_cons, List.foldr_cons]
    refine ⟨by simpa using hsize, fun i hi hlt => ?_⟩
    by_cases heq : i = start
    · subst heq
      rw [Array.getD_eq_getD_getElem?, Array.getElem?_setIfInBounds_self_of_lt
        (hlt.trans_eq hsize.symm),
        reaches_iff hm hnode]
      unfold reachesFrom
      simp only [Option.getD_some, Bool.or_eq_true, Bool.not_eq_true', List.any_eq_true]
      refine or_congr Iff.rfl (exists_congr fun c => and_congr_right fun hc => ?_)
      exact hdecided c (hm.lt_of_mem_children hnode hc) (hm.child_lt_size hnode hc)
    · rw [Array.getD_eq_getD_getElem?, Array.getElem?_setIfInBounds_ne (Ne.symm heq),
        ← Array.getD_eq_getD_getElem?]
      exact hdecided i (by omega) hlt

/-- The pass over the nodes finds exactly those that an argument descends from. -/
theorem reachable_iff (hm : m.WellFormed) {i : Nat} (hi : i < m.nodes.size) :
    m.reachable.getD i false = true ↔ m.Reaches i :=
  (foldr_reachable hm m.nodes.toList 0 rfl).2 i (Nat.zero_le i) hi

/-- The secrets that are listed as unreachable, by the position of their node. -/
theorem mem_unreachableSecrets_iff (hm : m.WellFormed) {i : Nat} {node : Node α}
    (hi : m.nodes[i]? = some node) :
    node.name ∈ m.unreachableSecrets ↔ node.role = .secret ∧ ¬ m.Reaches i := by
  have hlt : i < m.nodes.size := (Array.getElem?_eq_some_iff.mp hi).1
  unfold unreachableSecrets
  simp only [List.mem_map, List.mem_filter, Prod.exists, List.mem_zipIdx_iff_getElem?,
    Array.getElem?_toList, Bool.and_eq_true, beq_iff_eq, Bool.not_eq_true']
  rw [← reachable_iff hm hlt, Bool.not_eq_true]
  constructor
  · rintro ⟨other, j, ⟨hj, hrole, hreached⟩, hname⟩
    cases hm.eq_of_name_eq hj hi hname
    rw [hi] at hj
    cases hj
    exact ⟨hrole, hreached⟩
  · rintro ⟨hrole, hreached⟩
    exact ⟨node, i, ⟨hi, hrole, hreached⟩, rfl⟩

/-- A secret that is listed as unreachable shares no ancestor with an argument exactly if the pass
marks none of its proper ancestors as reachable: dependence that comes down from a common parent is
not looked at. -/
theorem listed_secret_isolated_iff [Scalar α] {p : Program α} (hp : p.Declared)
    (hm : p.compile = .ok m) {i : Nat} {node : Node α} (hi : m.nodes[i]? = some node)
    (hlisted : node.name ∈ m.unreachableSecrets) :
    (¬ ∃ k, m.IsAncestorOrSelf k i ∧ ∃ a ∈ m.arguments, m.IsAncestorOrSelf k a) ↔
      ∀ k, Relation.TransGen m.IsParent k i → m.reachable.getD k false = false := by
  have hwf := Program.wellFormed_of_compile hp hm
  have hself := ((mem_unreachableSecrets_iff hwf hi).mp hlisted).2
  have hancestor {k : Nat} (hk : Relation.TransGen m.IsParent k i) : k < m.nodes.size := by
    obtain ⟨j, ⟨child, hj, hbinding⟩, _⟩ := Relation.TransGen.head'_iff.mp hk
    exact (hwf.binding_lt hj hbinding).trans (Array.getElem?_eq_some_iff.mp hj).1
  constructor
  · intro hisolated k hk
    refine Bool.eq_false_iff.mpr fun hreached => hisolated ⟨k, hk.to_reflTransGen, ?_⟩
    exact (reachable_iff hwf (hancestor hk)).mp hreached
  · rintro hunreached ⟨k, hk, hreaches⟩
    rcases Relation.reflTransGen_iff_eq_or_transGen.mp hk with rfl | hproper
    · exact hself hreaches
    · have := hunreached k hproper
      rw [Bool.eq_false_iff] at this
      exact this ((reachable_iff hwf (hancestor hproper)).mpr hreaches)

/-- A fair coin that is copied twice: into a secret hyper-parameter, and into the argument that the
program returns. -/
noncomputable def copiedCoin : Program Exact where
  name := "copied"
  inputs := [(⟨"coin", .bernoulli, [.value (.real 0.5)], .scalar, true⟩, .known),
    (⟨"copy", .constant, [.reference "coin"], .scalar, true⟩, .secret),
    (⟨"shown", .constant, [.reference "coin"], .scalar, false⟩, .known)]
  outputs := [⟨"out", true, 1⟩]
  transformation arguments := .ok arguments
  observations := []

/-- The graph of `copiedCoin`, with its nodes in the order of the declaration. -/
noncomputable def copiedCoinModel : Model Exact :=
  copiedCoin.model [[], [0], [0]] [0, 1, 2] []

theorem copiedCoin_declared : copiedCoin.Declared := by
  have hcoin := Exact.declare_bernoulli "coin" (p := 0.5) (by norm_num) (by norm_num)
  have hcopy (name : String) : Variable.declare (α := Exact) name .constant [.reference "coin"] =
      .ok ⟨name, .constant, [.reference "coin"], .scalar, false⟩ := rfl
  intro input hinput
  simp only [copiedCoin, List.mem_cons, List.not_mem_nil, or_false] at hinput
  rcases hinput with rfl | rfl | rfl
  · exact .hyper (.declare hcoin)
  · exact .hyper (.declare (hcopy "copy"))
  · exact .declare (hcopy "shown")

/-- Every draw of the coin is copied, and the copy is returned. -/
theorem copiedCoin_samplePrior {σ : Type} [RandomWords σ] :
    (copiedCoinModel.samplePrior : Random σ _).Always fun drawn => ∃ x : ℝ,
      drawn = .ok #[#[.real x], #[.real x], #[.real x]] ∧
        copiedCoinModel.evaluate #[#[.real x], #[.real x], #[.real x]] = .ok [[.real x]] := by
  obtain ⟨coin, copy, shown, hnodes, ⟨hwidth₀, hliteral₀⟩, ⟨hwidth₁, hliteral₁, hbindings₁, hcopy⟩,
      hwidth₂, hliteral₂, hbindings₂, hshown⟩ :
      ∃ coin copy shown, copiedCoinModel.nodes.toList = [coin, copy, shown] ∧
        (coin.width = 1 ∧ coin.literal = some (.bernoulli (.real 0.5))) ∧
        (copy.width = 1 ∧ copy.literal = none ∧ copy.bindings = [.node 0] ∧
          copy.family = .constant) ∧
        shown.width = 1 ∧ shown.literal = none ∧ shown.bindings = [.node 0] ∧
          shown.family = .constant := by
    refine ⟨_, _, _, rfl, ⟨rfl, ?_⟩, ⟨rfl, rfl, rfl, rfl⟩, rfl, rfl, rfl, rfl⟩
    exact congrArg (·.bind (·.toOption))
      (Exact.distribution?_bernoulli "coin" true (p := 0.5) (by norm_num) (by norm_num))
  unfold samplePrior
  rw [hnodes]
  refine Exact.drawNodes_bernoulli_cons hwidth₀ hliteral₀ fun x => ?_
  refine Exact.drawNodes_copy_cons hwidth₁ hliteral₁ hbindings₁ hcopy rfl ?_
  refine Exact.drawNodes_copy_cons hwidth₂ hliteral₂ hbindings₂ hshown rfl ?_
  exact Random.Always.of_pure ⟨x, rfl, rfl⟩

theorem copiedCoin_assemble : copiedCoin.assemble = .ok copiedCoinModel := by
  unfold Program.assemble
  refine Except.bind_eq_ok_iff.mpr ⟨(), rfl, ?_⟩
  refine Except.bind_eq_ok_iff.mpr ⟨[[], [0], [0]], rfl, ?_⟩
  refine Except.bind_eq_ok_iff.mpr ⟨[0, 1, 2], rfl, ?_⟩
  refine Except.bind_eq_ok_iff.mpr ⟨(), Program.checkLiterals_eq_ok copiedCoin_declared _, rfl⟩

theorem copiedCoin_compile : copiedCoin.compile = .ok copiedCoinModel := by
  refine Program.compile_of_samplePrior copiedCoin_assemble (copiedCoin_samplePrior.mono ?_)
  rintro drawn ⟨x, rfl, houtputs⟩
  exact ⟨_, _, rfl, houtputs⟩

/-- The argument does not descend from the copy, which no node is bound to. -/
theorem copiedCoin_not_reaches : ¬ copiedCoinModel.Reaches 1 := by
  have hwf := Program.wellFormed_of_compile copiedCoin_declared copiedCoin_compile
  have hbindings {j : Nat} {child : Node Exact} (hj : copiedCoinModel.nodes[j]? = some child) :
      child.bindings = [.value (.real 0.5)] ∨ child.bindings = [.node 0] := by
    match j with
    | 0 => exact .inl (Option.some.inj hj ▸ rfl)
    | 1 => exact .inr (Option.some.inj hj ▸ rfl)
    | 2 => exact .inr (Option.some.inj hj ▸ rfl)
    | j + 3 => cases hj
  rw [reaches_iff hwf (i := 1) rfl]
  rintro (hhyper | ⟨c, hc, _⟩)
  · cases hhyper
  · obtain ⟨child, hj, hmem⟩ := (isParent_iff hwf (i := 1) rfl).mpr hc
    rcases hbindings hj with heq | heq <;> rw [heq] at hmem <;> simp at hmem

/-- The copy of a coin is listed, although the coin is an ancestor of the argument as well. -/
theorem copiedCoin_listed :
    copiedCoin.Declared ∧ copiedCoin.compile = .ok copiedCoinModel ∧
      ∃ node, copiedCoinModel.nodes[1]? = some node ∧
        node.name ∈ copiedCoinModel.unreachableSecrets ∧
        ∃ k, copiedCoinModel.IsAncestorOrSelf k 1 ∧
          ∃ a ∈ copiedCoinModel.arguments, copiedCoinModel.IsAncestorOrSelf k a := by
  have hwf := Program.wellFormed_of_compile copiedCoin_declared copiedCoin_compile
  refine ⟨copiedCoin_declared, copiedCoin_compile, _, rfl, ?_, 0, .single ⟨_, rfl, ?_⟩, 2, ?_,
    .single ⟨_, rfl, ?_⟩⟩
  · exact (mem_unreachableSecrets_iff hwf rfl).mpr ⟨rfl, copiedCoin_not_reaches⟩
  · exact List.mem_singleton.mpr rfl
  · exact List.mem_singleton.mpr rfl
  · exact List.mem_singleton.mpr rfl

/-- For the copy, the condition comes down to whether the coin is marked. -/
theorem copiedCoin_isolated_iff :
    (¬ ∃ k, copiedCoinModel.IsAncestorOrSelf k 1 ∧
        ∃ a ∈ copiedCoinModel.arguments, copiedCoinModel.IsAncestorOrSelf k a) ↔
      ∀ k, Relation.TransGen copiedCoinModel.IsParent k 1 →
        copiedCoinModel.reachable.getD k false = false := by
  have hwf := Program.wellFormed_of_compile copiedCoin_declared copiedCoin_compile
  have hlisted := (mem_unreachableSecrets_iff hwf (i := 1) rfl).mpr ⟨rfl, copiedCoin_not_reaches⟩
  exact listed_secret_isolated_iff copiedCoin_declared copiedCoin_compile rfl hlisted

end InfoFlow.Model
