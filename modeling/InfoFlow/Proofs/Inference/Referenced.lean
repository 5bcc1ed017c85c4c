import InfoFlow.Proofs.Distribution.Rebuilt
import InfoFlow.Proofs.Inference.Traces
import InfoFlow.Proofs.Model.Ancestral
import InfoFlow.Proofs.Model.Observed

namespace InfoFlow

variable {α : Type} [Scalar α]

theorem Variable.literalValues?_of_reference {parameters : List (Parameter α)} {target : String}
    (h : .reference target ∈ parameters) : literalValues? parameters = none := by
  unfold literalValues?
  induction parameters with
  | nil => cases h
  | cons parameter rest ih =>
    rw [List.mapM_cons]
    rcases List.mem_cons.mp h with rfl | h
    · rfl
    · rw [ih h]
      cases parameter <;> rfl

namespace Model

variable {p : Program α} {m : Model α} {i j : Nat} {node : Node α}

/-- The distribution of a node that is bound to another one is built anew for each state. -/
theorem literal_of_bound (hp : p.Declared) (hm : p.compile = .ok m) (hi : m.nodes[i]? = some node)
    (hj : .node j ∈ node.bindings) : node.literal = none ∧ node.family ≠ .categorical := by
  obtain ⟨parents, order, observations, _, hparents, horder, _, rfl⟩ := Program.compile_eq hm
  obtain ⟨d, v, role, _, hd, rfl⟩ := Program.model_node_eq hparents horder hi
  obtain ⟨parameter, hparameter, hbound⟩ := List.mem_map.mp hj
  cases parameter with
  | value x => cases hbound
  | weights ws => cases hbound
  | reference target =>
    refine ⟨?_, (hp _ (List.mem_of_getElem? hd)).family_ne_categorical hparameter⟩
    change v.distribution?.bind _ = none
    unfold Variable.distribution? Variable.literalDistribution?
    rw [Variable.literalValues?_of_reference hparameter]
    rfl

/-- Every element of a node that another one is bound to is the value of a parameter. -/
theorem exists_resolve_eq (hrep : m.Represents p) (hp : p.Declared) {s : State α} (hs : m.Fits s)
    (hi : m.nodes[i]? = some node) (hj : .node j ∈ node.bindings) {x : α}
    (hx : x ∈ s.getD j #[]) : ∃ e < node.width, Binding.resolve s e (.node j) = x := by
  obtain ⟨parent, hparent, _, hwidth⟩ := hrep.parent hi hj
  have hsize := hs.size_getD hparent
  simp only [Binding.resolve]
  generalize s.getD j #[] = values at hx hsize ⊢
  obtain ⟨k, hk, rfl⟩ := Array.mem_iff_getElem.mp hx
  have hget : values.getD k 0 = values[k] := by simp [hk]
  by_cases hone : values.size = 1
  · obtain rfl : k = 0 := by omega
    exact ⟨0, hrep.width_pos hp hi, (if_pos hone).trans hget⟩
  · exact ⟨k, by omega, (if_neg hone).trans hget⟩

/-- A node that another one is bound to is finite in every prior draw. -/
theorem isFinite_of_draws {σ : Type} [RandomWords σ] (hp : p.Declared) (hm : p.compile = .ok m)
    (hrep : m.Represents p) {s : State α} (hs : m.Fits s) {g g' : σ}
    (hdraws : m.Draws s m.elements g g') (hi : m.nodes[i]? = some node)
    (hj : .node j ∈ node.bindings) {x : α} (hx : x ∈ s.getD j #[]) :
    Scalar.isFinite x = true := by
  obtain ⟨hliteral, hfamily⟩ := literal_of_bound hp hm hi hj
  obtain ⟨e, he, rfl⟩ := exists_resolve_eq hrep hp hs hi hj hx
  obtain ⟨d, _, _, _, hd, _⟩ := hdraws.exists_draw (mem_elements hi he)
  rw [resolve_of_node hi] at hd
  unfold resolveNode at hd
  rw [hliteral] at hd
  exact Distribution.isFinite_of_build (Except.mapError_eq_ok_iff.mp hd) hfamily
    (List.mem_map.mpr ⟨_, hj, rfl⟩)

end Model

section Runs

variable {σ : Type} [RandomWords σ] {p : Program α} {m : Model α}

theorem PriorChain.attempt_isPriorDraw (m : Model α) :
    (attempt m : Random σ _).Always fun answer =>
      ∀ draw, answer = .ok draw → m.IsPriorDraw σ draw.state := by
  unfold attempt
  refine Random.Always.bind (Model.samplePrior_isPriorDraw m) fun drawn hdrawn => ?_
  cases drawn with
  | error fault => exact Random.Always.of_pure fun draw hdraw => by cases hdraw
  | ok state =>
    cases houtputs : m.evaluate state with
    | error fault =>
      simp only [houtputs]
      exact Random.Always.of_pure fun draw hdraw => by cases hdraw
    | ok outputs =>
      simp only [houtputs]
      refine Random.Always.of_pure fun draw hdraw => ?_
      cases hdraw
      exact hdrawn state rfl

omit [Scalar α] in
/-- Where an input references another one, its node is bound to the node of the other one. -/
theorem Model.Represents.exists_bound (hrep : m.Represents p) (hwf : m.WellFormed)
    {input other : Variable α × Role} {d : Nat} (hd : p.inputs[d]? = some input)
    (hother : other ∈ p.inputs) (hreference : .reference input.1.name ∈ other.1.parameters) :
    ∃ (i j : Nat) (node parent : Node α), m.nodes[i]? = some node ∧ .node j ∈ node.bindings ∧
      m.nodes[j]? = some parent ∧ parent.declared = d := by
  obtain ⟨_, hk⟩ := List.mem_iff_getElem?.mp hother
  obtain ⟨i, node, hi, _, _, hbinds⟩ := hrep.exists_node hk
  obtain ⟨j, parent, hj, hdeclared, hdeclares, _⟩ := hrep.exists_node hd
  have hname := hdeclares.name_eq
  generalize hreferenced : input.1.name = name at hreference hname
  obtain ⟨binding, hbinding, hbound⟩ := hbinds.exists_of_mem_left hreference
  cases hbound with
  | reference htarget _ _ =>
    cases hwf.eq_of_name_eq hj htarget hname
    exact ⟨i, j, node, parent, hi, hbinding, hj, hdeclared⟩

/-- A run from the prior records finite values of every input that another one references. -/
theorem referenced_inputs_finite (hp : p.Declared) (hm : p.compile = .ok m)
    {config : InferenceConfig} (hprior : m.drawsPrior config.strategy = true) {stream : Nat → σ}
    {allowance : Nat → Option Nat} {t : Trace α}
    (ht : inferWithin m config stream allowance = .ok t) {matrices : List (Matrix α)}
    (hmatrices : matrices ∈ t.chains) {d : Nat} {input other : Variable α × Role}
    (hd : p.inputs[d]? = some input) (hother : other ∈ p.inputs)
    (hreference : .reference input.1.name ∈ other.1.parameters) {matrix : Matrix α}
    (hmatrix : matrices[d]? = some matrix) {r : Nat} (hr : r < matrix.size) :
    ∀ x ∈ matrix.row r, Scalar.isFinite x = true := by
  have hwf := Program.wellFormed_of_compile hp hm
  have hrep := Program.represents_of_wellFormed hp hm hwf
  obtain ⟨runs, _, _, hruns, rfl⟩ := exists_runs_of_inferWithin ht
  obtain ⟨run, hrun, rfl⟩ := List.mem_map.mp hmatrices
  obtain ⟨chain, hanswer⟩ := hruns run hrun
  have hdraws : ∀ draw ∈ run.draws, m.IsPriorDraw σ draw.state := by
    unfold runChain at hanswer
    rw [if_pos hprior] at hanswer
    exact (priorChain_draws (PriorChain.attempt_isPriorDraw m) config _ chain _ run hanswer).2
  have hlt : r < run.draws.length :=
    Model.size_of_mem_recordedMatrices (List.mem_of_getElem? hmatrix) ▸ hr
  have hdrawn := hdraws _ (List.getElem_mem hlt)
  have hfits := hdrawn.fits
  obtain ⟨g, g', hdraw⟩ := hdrawn
  obtain ⟨i, j, node, parent, hi, hbound, hj, rfl⟩ :=
    hrep.exists_bound hwf hd hother hreference
  have hrow := Model.row_recordedMatrices hwf hfits (List.getElem?_eq_getElem hlt) hj
  rw [hmatrix, Option.map_some, Option.some_inj] at hrow
  rw [hrow]
  exact fun x hx => Model.isFinite_of_draws hp hm hrep hfits
    (Model.draws_of_samplePrior hrep hdraw) hi hbound (Array.mem_toList_iff.mp hx)

/-- A chain whose attempts all succeed records as many draws as are planned. -/
theorem priorChain_ok (hattempt : (PriorChain.attempt m : Random σ _).Always fun answer =>
      ∃ draw, answer = .ok draw) (config : InferenceConfig)
    (hattempts : config.maxInitAttempts.toNat ≠ 0) (allowance : Option Nat) (chain : Nat) :
    (priorChain m config allowance chain : Random σ _).Always fun answer =>
      ∃ run, answer = .ok run := by
  have hrecord (iteration : Nat) (c : PriorChain α) :
      ((PriorChain.record m chain iteration config.maxInitAttempts.toNat c).run : Random σ _).Always
        fun answer => ∃ next, answer = .ok (some next) := by
    obtain ⟨attempts, hcount⟩ := Nat.exists_eq_succ_of_ne_zero hattempts
    rw [hcount, PriorChain.record, Drawing.run_lift_bind]
    refine Random.Always.bind hattempt ?_
    rintro answer ⟨draw, rfl⟩
    exact Random.Always.of_pure ⟨_, rfl⟩
  have hrun (n iteration : Nat) (c : PriorChain α) :
      ((PriorChain.run m chain config.maxInitAttempts.toNat n iteration c).run : Random σ _).Always
        fun answer => ∃ final, answer = .ok (some final) := by
    induction n generalizing iteration c with
    | zero => exact Random.Always.of_pure ⟨_, rfl⟩
    | succ n ih =>
      unfold PriorChain.run
      refine Random.Always.run_bind (hrecord iteration c) ?_ ?_
      · rintro answer ⟨next, ⟨⟩⟩
        exact ih (iteration + 1) next
      · rintro b ⟨_, ⟨⟩⟩
  unfold priorChain
  refine Random.Always.bind (hrun _ _ _) ?_
  rintro answer ⟨final, rfl⟩
  exact Random.Always.of_pure ⟨_, rfl⟩

end Runs

/-- A run of one draw from the prior. -/
def singlePriorDraw : InferenceConfig := { singleDraw with strategy := .prior }

open Program in
/-- A run on the shown coin, which is conditioned, from the prior: the coin it records is a number. -/
theorem shownCoin_referenced_finite :
    shownCoin.Declared ∧ shownCoin.compile = .ok shownCoinModel ∧
      shownCoinModel.drawsPrior singlePriorDraw.strategy = true ∧
      ∃ t matrices matrix, inferWithin shownCoinModel singlePriorDraw (Xoshiro.ofSeedJumped 0)
          (fun _ => none) = .ok t ∧ matrices ∈ t.chains ∧ matrices[1]? = some matrix ∧
        0 < matrix.size ∧ ∀ x ∈ matrix.row 0, Scalar.isFinite x = true := by
  have hattempt : (PriorChain.attempt shownCoinModel : Random Xoshiro _).Always fun answer =>
      ∃ draw, answer = .ok draw := by
    unfold PriorChain.attempt
    refine Random.Always.bind shownCoin_samplePrior fun drawn ⟨x, hdrawn, houtputs⟩ => ?_
    rw [hdrawn]
    simp only [houtputs]
    exact Random.Always.of_pure ⟨_, rfl⟩
  obtain ⟨run, hrun⟩ :=
    priorChain_ok hattempt singlePriorDraw (by decide) none 0 (Xoshiro.ofSeedJumped 0 0)
  have hlength : run.draws.length = 1 := (priorChain_draws
    (PriorChain.attempt_isPriorDraw shownCoinModel) singlePriorDraw none 0 _ run hrun).1
  have hinfer : inferWithin shownCoinModel singlePriorDraw (Xoshiro.ofSeedJumped 0)
      (fun _ => none) = .ok (Trace.ofRuns shownCoinModel false [run]) := by
    refine Except.bind_eq_ok_iff.mpr ⟨(), rfl, Except.bind_eq_ok_iff.mpr ⟨[run], ?_, rfl⟩⟩
    exact Except.mapM_eq_ok_iff.mpr (.cons hrun .nil)
  obtain ⟨matrix, hmatrix⟩ : ∃ matrix, (shownCoinModel.recordedMatrices run.draws)[1]? =
      some matrix := ⟨_, rfl⟩
  have hsize : 0 < matrix.size := by
    rw [Model.size_of_mem_recordedMatrices (List.mem_of_getElem? hmatrix), hlength]
    exact Nat.zero_lt_one
  exact ⟨shownCoin_declared, shownCoin_compile, rfl, _, _, matrix, hinfer,
    List.mem_singleton_self _, hmatrix, hsize,
    referenced_inputs_finite shownCoin_declared shownCoin_compile rfl hinfer
      (List.mem_singleton_self _) (d := 1) rfl List.mem_cons_self List.mem_cons_self hmatrix hsize⟩

namespace Program

/-- A draw from the t-distribution with one degree of freedom, which nothing looks at. -/
def ignoredDraw : Program Float where
  name := "ignored"
  inputs := [(⟨"x", .studentT, [.value 1, .value 0, .value 1], .scalar, false⟩, .secret)]
  outputs := [⟨"out", false, 1⟩]
  transformation _ := .ok [.scalar 0]
  observations := []

def ignoredDrawModel : Model Float := ignoredDraw.model [[]] [0] []

private theorem build_ignoredDraw :
    Distribution.build .studentT [1, 0, 1] none = .ok (.studentT (1 : Float) 0 1) := by
  have hzero : Scalar.isFinite (0 : Float) = true := by decide +kernel
  have hone : Scalar.isFinite (1 : Float) = true := by decide +kernel
  have hpositive : ¬ (1 : Float) ≤ 0 := by decide +kernel
  refine Distribution.build_eq_ok_iff.mpr ⟨rfl, fun _ => ?_, rfl⟩
  simp [Family.signature, checkLiteral, hzero, hone, hpositive, pure, Except.pure]

theorem ignoredDraw_declared : ignoredDraw.Declared := by
  have hchecks := (Distribution.build_eq_ok_iff.mp build_ignoredDraw).2.1 (by decide)
  simp only [Family.signature, List.zip_cons_cons, List.zip_nil_right, List.forall_mem_cons]
    at hchecks
  have hdraw : Variable.declare "x" .studentT [.value (1 : Float), .value 0, .value 1] =
      .ok ⟨"x", .studentT, [.value 1, .value 0, .value 1], .scalar, false⟩ := by
    unfold Variable.declare
    simp [Family.signature, Variable.checkParameter, hchecks, Variable.literalDistribution?,
      Variable.literalValues?, Variable.literalWeights?, build_ignoredDraw, bind, Except.bind, pure,
      Except.pure]
  intro input hinput
  cases List.mem_singleton.mp hinput
  exact .declare hdraw

/-- A normal draw over the size of another one. -/
def normalRatio {σ : Type} [RandomWords σ] : Random σ Float := do
  let z ← Random.normal
  let w ← Random.normal
  return 0 + 1 * (z * Scalar.sqrt (1 / (w * w)))

/-- The draw with one degree of freedom does not break down. -/
theorem draw_ignoredDraw {σ : Type} [RandomWords σ] :
    ((Sampler.studentT (1 : Float) 0 1).draw : Drawing σ Float) = Drawing.lift normalRatio := by
  have hone : ((1 : Float) == 1) = true := by decide +kernel
  unfold Sampler.draw Random.studentT Random.chiSquared
  simp only [hone, if_true]
  rfl

theorem ignoredDraw_samplePrior {σ : Type} [RandomWords σ] :
    (ignoredDrawModel.samplePrior : Random σ _) = (fun x => .ok #[#[x]]) <$> normalRatio := by
  have hdistribution : (⟨"x", .studentT, [.value 1, .value 0, .value 1], .scalar, false⟩ :
      Variable Float).distribution? = some (.ok (.studentT 1 0 1)) := by
    simp [Variable.distribution?, Variable.literalDistribution?, Variable.literalValues?,
      Variable.literalWeights?, build_ignoredDraw, Except.mapError]
  obtain ⟨node, hnodes, hwidth, hliteral⟩ : ∃ node, ignoredDrawModel.nodes.toList = [node] ∧
      node.width = 1 ∧ node.literal = some (.studentT 1 0 1) :=
    ⟨_, rfl, rfl, congrArg (·.bind (·.toOption)) hdistribution⟩
  have hsampler : Sampler.ofDistribution (.studentT (1 : Float) 0 1) =
      .ok (.studentT 1 0 1) := by
    have hone : ((1 : Float) == 1) = true := by decide +kernel
    simp [Sampler.ofDistribution, hone]
  have helement : Model.elementSampler node 0 #[] = .ok (.studentT 1 0 1) :=
    Model.elementSampler_of_literal hliteral hsampler
  unfold Model.samplePrior
  rw [hnodes, Model.drawNodes, hwidth, List.range_one, Model.drawElements, helement]
  simp only [draw_ignoredDraw]
  rfl

theorem ignoredDraw_compile : ignoredDraw.compile = .ok ignoredDrawModel := by
  have hassemble : ignoredDraw.assemble = .ok ignoredDrawModel :=
    assemble_eq rfl rfl rfl (checkLiterals_eq_ok ignoredDraw_declared [0])
  refine compile_of_samplePrior hassemble ?_
  rw [ignoredDraw_samplePrior]
  exact fun g => ⟨_, _, rfl, rfl⟩

/-- A stream that begins with the middle one of the words, twice. -/
def middleWords : Xoshiro := ⟨0x0800000000000000, 0xf00000f000000000, 0, 0xf80000f000000000⟩

/-- A t-distributed draw divides a normal draw by the root of another one, and both may be zero. -/
theorem isNaN_middleWords : Scalar.isNaN (normalRatio.run middleWords).1 = true := by
  decide +kernel

/-- A run records the draw that cannot be produced, and does not count it as a divergence. -/
theorem ignoredDraw_records_nan :
    ignoredDraw.Declared ∧ ignoredDraw.compile = .ok ignoredDrawModel ∧
      ignoredDrawModel.drawsPrior singlePriorDraw.strategy = true ∧
      ∃ t matrices matrix, inferWithin ignoredDrawModel singlePriorDraw (fun _ => middleWords)
          (fun _ => none) = .ok t ∧ matrices ∈ t.chains ∧ matrices[0]? = some matrix ∧
        (∃ x ∈ matrix.row 0, Scalar.isNaN x = true) ∧
        t.diagnostics.divergences = 0 := by
  have hattempt : (PriorChain.attempt ignoredDrawModel : Random Xoshiro _) =
      (fun x => .ok ⟨#[#[x]], [[0]]⟩) <$> normalRatio := by
    unfold PriorChain.attempt
    rw [ignoredDraw_samplePrior]
    rfl
  have hnan := isNaN_middleWords
  -- the run below is the same whatever is drawn, and is not to evaluate the draw again
  generalize (normalRatio : Random Xoshiro _) = draw at hattempt hnan
  have hrun : (runChain ignoredDrawModel singlePriorDraw none 0 : Random Xoshiro _) =
      (fun x => .ok ⟨[⟨#[#[x]], [[0]]⟩], 1, 0, [], false⟩) <$> draw := by
    change ((PriorChain.run ignoredDrawModel 0 (999 + 1) (0 + 1) 0 ⟨[], 0, []⟩).run >>= _) = _
    unfold PriorChain.run PriorChain.record
    rw [hattempt]
    rfl
  have hinfer : inferWithin ignoredDrawModel singlePriorDraw (fun _ => middleWords)
      (fun _ => none) = .ok (Trace.ofRuns ignoredDrawModel false
        [⟨[⟨#[#[(draw.run middleWords).1]], [[0]]⟩], 1, 0, [], false⟩]) := by
    refine Except.bind_eq_ok_iff.mpr ⟨(), rfl, Except.bind_eq_ok_iff.mpr ⟨[_], ?_, rfl⟩⟩
    refine Except.mapM_eq_ok_iff.mpr (.cons ?_ .nil)
    rw [hrun]
    rfl
  exact ⟨ignoredDraw_declared, ignoredDraw_compile, rfl, _, _, _, hinfer,
    List.mem_singleton_self _, rfl, ⟨_, List.mem_singleton_self _, hnan⟩, rfl⟩

end Program

end InfoFlow
