import InfoFlow.Proofs.Distribution.Samplers
import InfoFlow.Proofs.Inference.Runs
import InfoFlow.Proofs.Model.Access
import InfoFlow.Proofs.Model.Ancestral
import InfoFlow.Proofs.Model.Observed

namespace InfoFlow

variable {α : Type} [Scalar α]

/-- A categorical distribution has a probability for each of the weights that it was built from. -/
theorem Distribution.weights_of_build {f : Family} {values : List α} {weights : Option (List α)}
    {probabilities : Array α} (h : build f values weights = .ok (.categorical probabilities)) :
    ∃ ws, weights = some ws ∧ ws ≠ [] ∧ probabilities.size = ws.length := by
  obtain ⟨_, _, hchecked⟩ := build_eq_ok_iff.mp h
  cases family_of_build h
  obtain ⟨ws, hws, hne, heq⟩ := ofWeights_eq_ok hchecked
  cases heq
  exact ⟨ws, hws, hne, by simp⟩

/-- Weights of one categorical input are few enough for their number to be a double. Beyond that, the
largest category rounds, and up to one that has no weight; nothing else limits the length of a list
here, but 2 to the 53 of them fill an address space of 56 bits. -/
def Program.HasStorableWeights (p : Program α) : Prop :=
  ∀ input ∈ p.inputs, ∀ ws, .weights ws ∈ input.1.parameters → ws.length ≤ 2 ^ 53

namespace Model

variable {m : Model α} {p : Program α}

/-- The weights of an element are those that its input declares. -/
theorem weights_of_resolve (hm : p.compile = .ok m) {i e : Nat} {s : State α}
    {node : Node α} (hi : m.nodes[i]? = some node) {probabilities : Array α}
    (h : m.resolve i e s = .ok (.categorical probabilities)) :
    ∃ input ∈ p.inputs, ∃ ws, .weights ws ∈ input.1.parameters ∧ ws ≠ [] ∧
      probabilities.size = ws.length := by
  obtain ⟨input, hinput, values, weights, hbuild, hdeclared⟩ := exists_build_of_resolve hm hi h
  obtain ⟨ws, hws, hne, hsize⟩ := Distribution.weights_of_build hbuild
  exact ⟨input, hinput, ws, hdeclared ws hws, hne, hsize⟩

theorem indexable_resolve (hm : p.compile = .ok m) (hweights : p.HasStorableWeights) {i e : Nat}
    {node : Node α} (hi : m.nodes[i]? = some node) (s : State α) :
    Checked.Indexable (m.resolve i e s) := by
  intro probabilities h
  obtain ⟨input, hinput, ws, hws, hne, hsize⟩ := weights_of_resolve hm hi h
  rw [hsize]
  exact ⟨List.length_pos_iff.mpr hne, hweights input hinput ws hws⟩

/-- Whatever a model is asked about a state, it looks up nothing that is not there: the distributions and
log-densities of elements, the outputs of any transformation, the likelihood of outputs that have been
returned on any state, and the values that are recorded in a row. -/
structure InBounds (m : Model α) (s : State α) : Prop where
  resolve_eq {i e : Nat} {node : Node α} : m.nodes[i]? = some node → e < node.width →
    Checked.resolve m i e s = .ok (m.resolve i e s)
  lnPriorElement_eq {i e : Nat} {node : Node α} : m.nodes[i]? = some node → e < node.width →
    Checked.lnPriorElement m i e s = .ok (m.lnPriorElement i e s)
  evaluate_eq (f : Transformation α) :
    Checked.evaluate (m.withTransformation f) s = .ok ((m.withTransformation f).evaluate s)
  lnLikelihood_eq {f : Transformation α} {t : State α} {outputs : List (List α)} :
    (m.withTransformation f).evaluate t = .ok outputs →
      Checked.lnLikelihood m s outputs = .ok (m.lnLikelihood s outputs)
  row_eq {f : Transformation α} {t : State α} {outputs : List (List α)} {capacity r : Nat} :
    (m.withTransformation f).evaluate t = .ok outputs → r < capacity →
      Checked.row m capacity r ⟨s, outputs⟩ = .ok (m.tracedValues ⟨s, outputs⟩)

theorem Fits.inBounds [LawfulIndices α] {s : State α} (hs : m.Fits s) (hrep : m.Represents p)
    (hwf : m.WellFormed) (hm : p.compile = .ok m) (hweights : p.HasStorableWeights) :
    m.InBounds s where
  resolve_eq hi he := by
    obtain ⟨_, hvalues, _⟩ := hs.exists_values hi
    exact Checked.resolve_eq hrep hi he hs.soFar (Array.getElem?_eq_some_iff.mp hvalues).1.le
  lnPriorElement_eq hi he :=
    Checked.lnPriorElement_eq hrep hi he hs (indexable_resolve hm hweights hi s)
  evaluate_eq f := Checked.evaluate_eq hrep hwf hs f
  lnLikelihood_eq {f _ _} h :=
    Checked.lnLikelihood_eq hrep hs (evaluate_widths (m := m.withTransformation f) h)
  row_eq {f _ _ _ _} h hr :=
    Checked.row_eq hwf hs (evaluate_widths (m := m.withTransformation f) h) hr

end Model

/-- No look-up in a compiled program is out of bounds. An ancestral draw asks for distributions that what
is drawn already decides, and they are those that the finished state gives; no state of the same widths
is looked up where it has nothing; and no chain records more rows than its matrices have. -/
theorem Program.looks_up_in_bounds [LawfulIndices α] {σ : Type} [RandomWords σ] {p : Program α}
    (hp : p.Declared) {m : Model α} (hm : p.compile = .ok m) (hweights : p.HasStorableWeights) :
    (Checked.samplePrior m : ExceptT OutOfBounds (Random σ) _) = ExceptT.lift m.samplePrior ∧
      (∀ (g g' : σ) (s : State α), m.samplePrior.run g = (.ok s, g') →
        m.Draws s m.elements g g' ∧
        ∀ t : State α, t.toList.map Array.size = s.toList.map Array.size → m.InBounds t) ∧
      ∀ config allowance chain, (runChain m config allowance chain : Random σ _).Always
        fun answer => ∀ run, answer = .ok run → run.draws.length ≤ config.sampleCount.toNat := by
  have hwf := wellFormed_of_compile hp hm
  have hrep := represents_of_wellFormed hp hm hwf
  refine ⟨Checked.samplePrior_eq hrep, fun g g' s hrun => ⟨Model.draws_of_samplePrior hrep hrun, ?_⟩,
    runChain_length_le m⟩
  intro t ht
  have hs : m.Fits s := Model.IsPriorDraw.fits ⟨g, g', hrun⟩
  have hfits : m.Fits t := ht.trans hs
  exact hfits.inBounds hrep hwf hm hweights

namespace Program

/-- Two throws of a loaded die. -/
def loadedDie : Program Float where
  name := "throws"
  inputs := [(⟨"die", .categorical, [.weights [1, 3]], .vector 2, false⟩, .secret)]
  outputs := [⟨"out", true, 2⟩]
  transformation arguments := .ok arguments
  observations := []

def loadedDieModel : Model Float := loadedDie.model [[]] [0] []

/-- The distribution of the throws. -/
def loadedDieWeights : Array Float := #[1 / Scalar.sum [1, 3], 3 / Scalar.sum [1, 3]]

private theorem build_loadedDie :
    Distribution.build .categorical [0] (some [1, 3]) = .ok (.categorical loadedDieWeights) := by
  have hpositive : ([1, 3] : List Float).any (fun w => !Scalar.isFinite w || w < 0) = false := by
    decide +kernel
  have hsum : ¬ (Scalar.sum [1, 3] : Float) ≤ 0 := by decide +kernel
  exact Distribution.build_categorical (List.cons_ne_nil 1 [3]) hpositive hsum

theorem loadedDie_declared : loadedDie.Declared := by
  intro input hinput
  cases List.mem_singleton.mp hinput
  exact .withElements (n := 2) (.declare (Variable.declare_categorical "die" build_loadedDie)) rfl

theorem loadedDie_samplePrior {σ : Type} [RandomWords σ] :
    (loadedDieModel.samplePrior : Random σ _).Always fun drawn => ∃ x y,
      drawn = .ok #[#[x, y]] ∧ loadedDieModel.evaluate #[#[x, y]] = .ok [[x, y]] := by
  obtain ⟨die, hnodes, hwidth, hliteral⟩ : ∃ die, loadedDieModel.nodes.toList = [die] ∧
      die.width = 2 ∧ die.literal = some (.categorical loadedDieWeights) :=
    ⟨_, rfl, rfl, congrArg (·.bind (·.toOption))
      (Variable.distribution?_categorical "die" (.vector 2) false build_loadedDie)⟩
  obtain ⟨sampler, hsampler, hdirect⟩ : ∃ sampler,
      Sampler.ofDistribution (.categorical loadedDieWeights) = .ok sampler ∧ sampler.isDirect = true :=
    Except.exists_of_any_toOption (by decide +kernel)
  have helement (e : Nat) : Model.elementSampler die e #[] = .ok sampler :=
    Model.elementSampler_of_literal hliteral hsampler
  have hthrow := Sampler.draw_of_isDirect (σ := σ) hdirect
  have hthrows : (Model.drawElements die #[] [0, 1] : Random σ _).Always fun drawn =>
      ∃ x y, drawn = .ok [x, y] := by
    unfold Model.drawElements
    rw [helement]
    refine Random.Always.bind hthrow ?_
    rintro _ ⟨x, rfl⟩
    refine Random.Always.bind (P := fun drawn => ∃ y, drawn = .ok [y]) ?_ ?_
    · unfold Model.drawElements
      rw [helement]
      refine Random.Always.bind hthrow ?_
      rintro _ ⟨y, rfl⟩
      exact Random.Always.of_pure ⟨y, rfl⟩
    · rintro drawn ⟨y, rfl⟩
      exact Random.Always.of_pure ⟨x, y, rfl⟩
  unfold Model.samplePrior
  rw [hnodes, Model.drawNodes, hwidth]
  refine Random.Always.bind hthrows ?_
  rintro drawn ⟨x, y, rfl⟩
  exact Random.Always.of_pure ⟨x, y, rfl, rfl⟩

theorem loadedDie_compile : loadedDie.compile = .ok loadedDieModel := by
  have hassemble : loadedDie.assemble = .ok loadedDieModel :=
    assemble_eq rfl rfl rfl (checkLiterals_eq_ok loadedDie_declared [0])
  refine compile_of_samplePrior hassemble (loadedDie_samplePrior.mono ?_)
  rintro drawn ⟨x, y, rfl, houtputs⟩
  exact ⟨_, _, rfl, houtputs⟩

/-- Two throws look up one probability each. -/
theorem loadedDie_in_bounds :
    loadedDie.Declared ∧ loadedDie.compile = .ok loadedDieModel ∧ loadedDie.HasStorableWeights ∧
      ∃ s g', loadedDieModel.samplePrior.run (Xoshiro.ofSeed 0) = (.ok s, g') ∧
        loadedDieModel.Draws s [(0, 0), (0, 1)] (Xoshiro.ofSeed 0) g' ∧
        loadedDieModel.InBounds s := by
  have hweights : loadedDie.HasStorableWeights := by
    intro input hinput ws hws
    cases List.mem_singleton.mp hinput
    cases List.mem_singleton.mp hws
    decide
  obtain ⟨s, g', hrun⟩ : ∃ s g', loadedDieModel.samplePrior.run (Xoshiro.ofSeed 0) =
      (.ok s, g') := by
    obtain ⟨x, y, hdrawn, _⟩ := loadedDie_samplePrior (Xoshiro.ofSeed 0)
    generalize loadedDieModel.samplePrior.run (Xoshiro.ofSeed 0) = result at hdrawn
    exact ⟨_, result.2, Prod.ext hdrawn rfl⟩
  obtain ⟨_, hstates, _⟩ := looks_up_in_bounds (σ := Xoshiro) loadedDie_declared loadedDie_compile
    hweights
  obtain ⟨hdraws, hbounds⟩ := hstates _ g' s hrun
  exact ⟨loadedDie_declared, loadedDie_compile, hweights, s, g', hrun, hdraws, hbounds s rfl⟩

end Program

end InfoFlow
