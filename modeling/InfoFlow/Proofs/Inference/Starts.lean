import InfoFlow.Proofs.Distribution.PointMass
import InfoFlow.Proofs.Inference.Coherence
import InfoFlow.Proofs.Model.Ancestral
import InfoFlow.Proofs.Model.Constants
import InfoFlow.Proofs.Model.Observed

namespace InfoFlow

variable {α σ : Type} [Scalar α] [RandomWords σ] {p : Program α} {m : Model α} {s : State α}
  {i e : Nat} {node : Node α} {c : α}

namespace Model

section Draws

variable {g g' : σ}

/-- A prior draw has given a constant its value. -/
theorem resolve_constant_of_draws (hm : p.compile = .ok m) (hdraws : m.Draws s m.elements g g')
    (hi : m.nodes[i]? = some node) (hfamily : node.family = .constant) (he : e < node.width) :
    m.resolve i e s = .ok (.constant (s.value i e)) ∧ Scalar.isFinite (s.value i e) = true := by
  obtain ⟨d, sampler, before, after, hresolve, hsampler, hdraw⟩ :=
    hdraws.exists_draw (mem_elements hi he)
  obtain ⟨_, _, values, weights, hbuild, _⟩ := exists_build_of_resolve hm hi hresolve
  rw [hfamily] at hbuild
  obtain ⟨x, rfl, hx⟩ := Distribution.exists_of_build_constant hbuild
  cases hsampler
  have hvalue : x = s.value i e := Except.ok.inj (congrArg Prod.fst hdraw)
  exact ⟨hvalue ▸ hresolve, hvalue ▸ hx⟩

/-- A literal constant has its value in every prior draw. -/
theorem value_of_literal (hm : p.compile = .ok m) (hdraws : m.Draws s m.elements g g')
    (hi : m.nodes[i]? = some node) (hliteral : node.literal = some (.constant c))
    (he : e < node.width) : node.family = .constant ∧ s.value i e = c := by
  have hresolve : m.resolve i e s = .ok (.constant c) := by
    rw [resolve_of_node hi, resolveNode, hliteral]
  obtain ⟨_, _, values, weights, hbuild, _⟩ := exists_build_of_resolve hm hi hresolve
  have hfamily : node.family = .constant := (Distribution.family_of_build hbuild).symm
  have hdrawn := (resolve_constant_of_draws hm hdraws hi hfamily he).1
  rw [hresolve] at hdrawn
  cases hdrawn
  exact ⟨hfamily, rfl⟩

theorem lnPriorElement_constant [LawfulOrder α] [LawfulFloor α] (hm : p.compile = .ok m)
    (hdraws : m.Draws s m.elements g g') (hi : m.nodes[i]? = some node)
    (hfamily : node.family = .constant) (he : e < node.width) :
    m.lnPriorElement i e s =
      if Scalar.isInteger (s.value i e) then 0 else -Scalar.infinity := by
  obtain ⟨hresolve, hfinite⟩ := resolve_constant_of_draws hm hdraws hi hfamily he
  unfold lnPriorElement
  rw [hresolve]
  change (Distribution.constant (s.value i e)).lnDensity (s.value i e) = _
  rw [Distribution.lnDensity_constant hfinite, Scalar.beq_self hfinite, Bool.true_and]

/-- Where a chain is, all constants that have been drawn are whole. -/
theorem isInteger_of_coherent [LawfulScalar α] [LawfulOrder α] [LawfulFloor α]
    (hm : p.compile = .ok m) {chain : Chain α} (hc : chain.Coherent m)
    (hdraws : m.Draws chain.state m.elements g g') (hi : m.nodes[i]? = some node)
    (hfamily : node.family = .constant) (he : e < node.width) :
    Scalar.isInteger (chain.state.value i e) = true := by
  have hfinite := hc.lnPrior_finite hi he
  rw [lnPriorElement_constant hm hdraws hi hfamily he] at hfinite
  by_contra hfraction
  rw [if_neg hfraction, Scalar.isFinite_negInfinity] at hfinite
  cases hfinite

end Draws

theorem init_draws (hrep : m.Represents p) (id attempts : Nat) :
    ((Chain.init m id attempts).run : Random σ _).Always fun started =>
      ∀ chain, started = .ok (some chain) → chain.Coherent m ∧
        ∃ g g' : σ, m.Draws chain.state m.elements g g' := by
  refine (Chain.init_start m id attempts).mono fun started h chain hchain => ?_
  obtain ⟨state, hstate, hstart⟩ := h chain hchain
  refine ⟨Chain.start?_coherent hstate.fits hstart, ?_⟩
  obtain ⟨g, g', hrun⟩ := hstate
  rw [Chain.state_of_start? hstart]
  exact ⟨g, g', draws_of_samplePrior hrep hrun⟩

/-- Constants of a model are weighed as whole numbers: where one has another value, a prior draw has no
density, and a chain does not start there. None starts if a constant is declared with such a value: all
attempts fail, unless a draw of another input breaks down. -/
structure WeighsWhole (m : Model α) (σ : Type) [RandomWords σ] : Prop where
  lnPriorElement_eq {s : State α} {i e : Nat} {node : Node α} : m.IsPriorDraw σ s →
    m.nodes[i]? = some node → node.family = .constant → e < node.width →
    m.lnPriorElement i e s = if Scalar.isInteger (s.value i e) then 0 else -Scalar.infinity
  init_isInteger (id attempts : Nat) :
    ((Chain.init m id attempts).run : Random σ _).Always fun started =>
      ∀ chain, started = .ok (some chain) → ∀ {i e : Nat} {node : Node α},
        m.nodes[i]? = some node → node.family = .constant → e < node.width →
          Scalar.isInteger (chain.state.value i e) = true
  init_fails {i : Nat} {node : Node α} {c : α} (id attempts : Nat) : m.nodes[i]? = some node →
    node.literal = some (.constant c) → Scalar.isInteger c = false →
    ((Chain.init m id attempts).run : Random σ _).Always fun started =>
      started = .ok none ∨ ∃ b, started = .error b

theorem weighsWhole_of_compile [LawfulScalar α] [LawfulOrder α] [LawfulFloor α] (hp : p.Declared)
    (hm : p.compile = .ok m) : m.WeighsWhole σ := by
  have hrep := Program.represents_of_wellFormed hp hm (Program.wellFormed_of_compile hp hm)
  refine ⟨fun ⟨g, g', hrun⟩ hi hfamily he => ?_, fun id attempts => ?_,
    fun {i node c} id attempts hi hliteral hfraction => ?_⟩
  · exact lnPriorElement_constant hm (draws_of_samplePrior hrep hrun) hi hfamily he
  · refine (init_draws hrep id attempts).mono fun started h chain hchain i e node hi hfamily he => ?_
    obtain ⟨hc, g, g', hdraws⟩ := h chain hchain
    exact isInteger_of_coherent hm hc hdraws hi hfamily he
  · have hpos := hrep.width_pos hp hi
    refine (init_draws hrep id attempts).mono fun started h => ?_
    rcases started with b | (_ | chain)
    · exact .inr ⟨b, rfl⟩
    · exact .inl rfl
    · obtain ⟨hc, g, g', hdraws⟩ := h chain rfl
      obtain ⟨hfamily, hvalue⟩ := value_of_literal hm hdraws hi hliteral hpos
      have hwhole := isInteger_of_coherent hm hc hdraws hi hfamily hpos
      rw [hvalue, hfraction] at hwhole
      cases hwhole

end Model

/-- A constant answers as if its mass were at the whole number above it, and has a density only if it is
that number itself. Prior draws with other constants are no starts for chains. -/
theorem constant_isMassAbove [LawfulScalar α] [LawfulOrder α] [LawfulFloor α] [LawfulIndicators α]
    (hc : Scalar.isFinite c = true) :
    Distribution.build .constant [c] none = .ok (.constant c) ∧
      (Distribution.constant c).IsMassAbove c ∧ (Scalar.ceil c == c) = Scalar.isInteger c ∧
      ∀ p : Program α, p.Declared → ∀ m, p.compile = .ok m → m.WeighsWhole σ :=
  ⟨Distribution.build_constant hc, ⟨Distribution.contains_constant hc,
    Distribution.lnDensity_constant hc, Distribution.mass_constant hc,
    Distribution.quantile_constant hc⟩, Scalar.ceil_beq hc,
    fun _ hp _ hm => Model.weighsWhole_of_compile hp hm⟩

/-- A half passes the checks of a constant, and is not in its own support. -/
theorem half_not_contained :
    (Distribution.build .constant [0.5] none).toOption = some (.constant (0.5 : Float)) ∧
      (Distribution.constant (0.5 : Float)).support.contains 0.5 = false ∧
      ((Distribution.constant (0.5 : Float)).lnDensity 0.5 == -Scalar.infinity) = true ∧
      ((Distribution.constant (0.5 : Float)).mass 0.5 0.5 == 0) = true ∧
      ((Distribution.constant (0.5 : Float)).mass 1 2 == 1) = true ∧
      ((Distribution.constant (0.5 : Float)).quantile 0.5 == 1) = true := by
  refine ⟨rfl, ?_⟩
  decide +kernel

namespace Program

/-- A constant that is not whole. -/
def half : Program Float where
  name := "half"
  inputs := [(⟨"x", .constant, [.value 0.5], .scalar, false⟩, .secret)]
  outputs := [⟨"out", false, 1⟩]
  transformation arguments := .ok arguments
  observations := []

def halfModel : Model Float := half.model [[]] [0] []

theorem isFinite_half : Scalar.isFinite (0.5 : Float) = true := by decide +kernel

theorem half_declared : half.Declared := by
  intro input hinput
  cases List.mem_singleton.mp hinput
  exact .declare (Variable.declare_constant "x" isFinite_half)

theorem half_nodes : ∃ node, halfModel.nodes.toList = [node] ∧ node.width = 1 ∧
    node.literal = some (.constant 0.5) :=
  ⟨_, rfl, rfl, congrArg (·.bind (·.toOption))
    (Variable.distribution?_constant "x" .scalar false isFinite_half)⟩

theorem half_samplePrior {σ : Type} [RandomWords σ] :
    (halfModel.samplePrior : Random σ _) = pure (.ok #[#[0.5]]) := by
  obtain ⟨node, hnodes, hwidth, hliteral⟩ := half_nodes
  unfold Model.samplePrior
  rw [hnodes, Model.drawNodes_constant_cons hliteral, hwidth]
  rfl

theorem half_compile : half.compile = .ok halfModel := by
  have hassemble : half.assemble = .ok halfModel :=
    assemble_eq rfl rfl rfl (checkLiterals_eq_ok half_declared [0])
  refine compile_of_samplePrior hassemble ?_
  rw [half_samplePrior]
  exact Random.Always.of_pure ⟨_, _, rfl, rfl⟩

/-- A half is taken for 1, and a program that declares it cannot be started. -/
theorem half_isMassAbove :
    Scalar.isFinite (0.5 : Float) = true ∧
      (Distribution.constant (0.5 : Float)).IsMassAbove 0.5 ∧
      ((0.5 : Float) == Scalar.ceil 0.5) = false ∧ half.Declared ∧ half.compile = .ok halfModel ∧
      ∀ id attempts, ((Chain.init halfModel id attempts).run : Random Xoshiro _).Always
        fun started => started = .ok none := by
  obtain ⟨_, hmass, _, hmodels⟩ := constant_isMassAbove (σ := Xoshiro) isFinite_half
  obtain ⟨node, hnodes, _, hliteral⟩ := half_nodes
  have hnode : halfModel.nodes[0]? = some node := by rw [← Array.getElem?_toList, hnodes]; rfl
  have hfraction : Scalar.isInteger (0.5 : Float) = false := by decide +kernel
  refine ⟨isFinite_half, hmass, by decide +kernel, half_declared, half_compile,
    fun id attempts stream => ?_⟩
  have hfails := (hmodels half half_declared halfModel half_compile).init_fails id attempts hnode
    hliteral hfraction stream
  have hdraws : (halfModel.samplePrior : Random Xoshiro _).Always fun drawn => ∃ s, drawn = .ok s := by
    rw [half_samplePrior]
    exact Random.Always.of_pure ⟨_, rfl⟩
  obtain ⟨chain?, hstarted⟩ := Chain.exists_init hdraws id attempts stream
  refine hfails.resolve_right ?_
  rintro ⟨b, hb⟩
  exact nomatch hstarted.symm.trans hb

end Program

end InfoFlow
