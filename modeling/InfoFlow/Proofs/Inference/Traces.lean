import InfoFlow.Proofs.Inference.Lookups
import InfoFlow.Proofs.Inference.Runs
import InfoFlow.Proofs.Model.Tables

namespace InfoFlow

variable {α : Type}

namespace Program

/-- The widths of the declared names, inputs first. -/
def widths (p : Program α) : List Nat := p.inputs.map (·.1.width) ++ p.outputs.map Output.width

/-- The values of the arguments in row `r` of the matrices of a chain, where input `d` is in matrix
`d`. -/
def rowArguments [Scalar α] (p : Program α) (matrices : List (Matrix α)) (r : Nat) :
    List (Value α) :=
  p.inputs.zipIdx.filterMap fun ((v, _), d) =>
    let row := (matrices[d]?.map (·.row r)).getD []
    if v.isHyper then none
    else if v.shape = .scalar then some (.scalar (row.getD 0 0))
    else some (.vector row)

/-- The values of the outputs in row `r` of the matrices of a chain, which come after those of the
inputs. -/
def rowOutputs (p : Program α) (matrices : List (Matrix α)) (r : Nat) : List (List α) :=
  (matrices.drop p.inputs.length).map (·.row r)

end Program

/-- The trace has samples of the inputs and outputs of a program: `draws` of them in each of `chains`
chains. An index of an element is a machine word. -/
structure Trace.Samples [Scalar α] (t : Trace α) (p : Program α) (chains draws : Nat) : Prop where
  length_chains : t.chains.length = chains
  widths_eq {matrices : List (Matrix α)} : matrices ∈ t.chains →
    matrices.map Matrix.width = p.widths
  size_eq {matrices : List (Matrix α)} {m : Matrix α} : matrices ∈ t.chains → m ∈ matrices →
    m.size = draws
  outputs_eq {matrices : List (Matrix α)} {r : Nat} : matrices ∈ t.chains → r < draws →
    ∃ values, p.transformation (p.rowArguments matrices r) = .ok values ∧
      values.map Value.elements = p.rowOutputs matrices r
  samples_eq {v width e : Nat} {name : String} : p.names[v]? = some name →
    p.widths[v]? = some width → Selector.isName name.toList = true → e < width →
    e < UInt64.size → ∃ merged column isDiscrete xs, t.merged name = pure merged ∧
      t.samples (name ++ "[" ++ toString e ++ "]") = pure (column, isDiscrete) ∧
      merged.ofColumn? e = some column ∧ t.elementChains name e = pure xs ∧
      merged.column? e = some xs.flatten ∧
      List.Forall₂ (fun matrices xs => (matrices[v]?.bind (·.column? e)) = some xs) t.chains xs

variable [Scalar α]

/-- An evaluation that succeeds has the elements of what the transformation returned. -/
theorem Model.exists_values_of_evaluate {m : Model α} {state : State α} {outputs : List (List α)}
    (h : m.evaluate state = .ok outputs) :
    ∃ values, m.transformation (m.argumentValues state) = .ok values ∧
      values.map Value.elements = outputs := by
  unfold evaluate at h
  split at h
  · cases h
  · rename_i values hvalues
    split at h
    · cases h
    · rename_i hcount
      refine ⟨values, hvalues, ?_⟩
      have hall := Except.mapM_eq_ok_iff.mp h
      have helements : (m.outputs.zip values).map (fun pair => pair.2.elements) = outputs := by
        refine List.forall₂_eq_eq_eq ▸ List.forall₂_map_left_iff.mpr (hall.imp ?_)
        rintro ⟨output, value⟩ row hrow
        simp only [checkOutput] at hrow
        split at hrow
        · cases hrow
        · cases hrow
          rfl
      have hsnd := List.map_snd_zip (Nat.le_of_eq (not_not.mp hcount))
      calc values.map Value.elements
          = ((m.outputs.zip values).map Prod.snd).map Value.elements := by rw [hsnd]
        _ = (m.outputs.zip values).map (fun pair => pair.2.elements) := List.map_map ..
        _ = outputs := helements

theorem Model.width_recordedMatrices (m : Model α) (draws : List (Draw α)) :
    (m.recordedMatrices draws).map Matrix.width = m.tracedVariables.map TracedVariable.width := by
  unfold recordedMatrices
  rw [List.map_map]
  change m.tracedVariables.zipIdx.map (TracedVariable.width ∘ Prod.fst) = _
  rw [← List.map_map, List.zipIdx_map_fst]

namespace Program

variable {p : Program α} {parents : List (List Nat)} {order : List Nat}
  {observations : List (SiteObservation α)}

/-- The node of a declared input. -/
theorem exists_node_of_input (observations : List (SiteObservation α))
    (hparents : p.parents = .ok parents)
    (horder : Order.topological parents = .ok order) {d : Nat} {v : Variable α} {role : Role}
    (hd : p.inputs[d]? = some (v, role)) :
    ∃ i node, (declarationOf order)[d]? = some i ∧
      (p.model parents order observations).nodes[i]? = some node ∧ node.Declares v role ∧
        node.declared = d := by
  have hlt : d < (declarationOf order).length :=
    length_declarationOf hparents horder ▸ (List.getElem?_eq_some_iff.mp hd).1
  have hi := List.getElem?_eq_getElem hlt
  have hnode : (p.model parents order observations).nodes[(declarationOf order)[d]]? = _ :=
    model_nodes_getElem? hparents horder _
  rw [(declarationOf_getElem? horder).mp hi, Option.bind_some, hd, Option.map_some] at hnode
  exact ⟨_, _, hi, hnode, declares_node, rfl⟩

/-- What is read from the node of each declared input is what the inputs have declared. -/
private theorem filterMap_declaration (observations : List (SiteObservation α))
    (hparents : p.parents = .ok parents) (horder : Order.topological parents = .ok order) {β : Type}
    {f : Node α → β} {g : Variable α × Role → β}
    (hfg : ∀ node v role, node.Declares v role → f node = g (v, role)) :
    ((declarationOf order).filterMap fun i =>
      (p.model parents order observations).nodes[i]?.map f) = p.inputs.map g := by
  have hread {d i : Nat} (hi : (declarationOf order)[d]? = some i) :
      ∃ input, p.inputs[d]? = some input ∧
        (p.model parents order observations).nodes[i]?.map f = some (g input) := by
    have hlt : d < p.inputs.length :=
      length_declarationOf hparents horder ▸ (List.getElem?_eq_some_iff.mp hi).1
    obtain ⟨⟨v, role⟩, hv⟩ : ∃ input, p.inputs[d]? = some input :=
      ⟨_, List.getElem?_eq_getElem hlt⟩
    obtain ⟨i', node, hi', hnode, hdeclares, _⟩ :=
      exists_node_of_input observations hparents horder hv
    rw [hi] at hi'
    cases hi'
    exact ⟨_, hv, by rw [hnode, Option.map_some, hfg _ _ _ hdeclares]⟩
  have hall : ∀ i ∈ declarationOf order,
      ((p.model parents order observations).nodes[i]?.map f).isSome := by
    intro i hmem
    obtain ⟨d, hd⟩ := List.mem_iff_getElem?.mp hmem
    obtain ⟨input, _, hinput⟩ := hread hd
    rw [hinput]
    rfl
  refine List.ext_getElem? fun d => ?_
  rw [getElem?_filterMap_of_isSome hall, List.getElem?_map]
  cases hd : (declarationOf order)[d]? with
  | none =>
    have hout := List.getElem?_eq_none_iff.mp hd
    rw [length_declarationOf hparents horder] at hout
    simp [hout]
  | some i =>
    obtain ⟨input, hinput, hvalue⟩ := hread hd
    rw [Option.bind_some, hvalue, hinput, Option.map_some]

/-- The traced variables of a compiled program are those it declares, in the same order. -/
theorem tracedVariables_model (observations : List (SiteObservation α))
    (hparents : p.parents = .ok parents) (horder : Order.topological parents = .ok order) :
    (p.model parents order observations).tracedVariables.map TracedVariable.name = p.names ∧
      (p.model parents order observations).tracedVariables.map TracedVariable.width =
        p.widths := by
  unfold Model.tracedVariables names widths
  simp only [List.map_append, List.map_filterMap, List.map_map, Option.map_map]
  have hname := filterMap_declaration observations (f := Node.name)
    (g := (·.1.name)) hparents horder fun _ _ _ h => h.name_eq
  have hwidth := filterMap_declaration observations (f := Node.width)
    (g := (·.1.width)) hparents horder fun _ _ _ h => h.width_eq
  exact ⟨congrArg (· ++ _) hname, congrArg (· ++ _) hwidth⟩

section Rows

variable {draws : List (Draw α)} {draw : Draw α} {r : Nat}

/-- The recorded arguments are those that the transformation got. -/
theorem rowArguments_recordedMatrices (hparents : p.parents = .ok parents)
    (horder : Order.topological parents = .ok order)
    (hwf : (p.model parents order observations).WellFormed)
    (hfits : (p.model parents order observations).Fits draw.state) (hr : draws[r]? = some draw) :
    p.rowArguments ((p.model parents order observations).recordedMatrices draws) r =
      (p.model parents order observations).argumentValues draw.state := by
  have hrow {d i : Nat} {node : Node α}
      (hi : (p.model parents order observations).nodes[i]? = some node)
      (hd : node.declared = d) :
      ((((p.model parents order observations).recordedMatrices draws)[d]?.map (·.row r)).getD [] =
        (draw.state.getD i #[]).toList) := by
    rw [← hd, Model.row_recordedMatrices hwf hfits hr hi, Option.getD_some]
  generalize (p.model parents order observations).recordedMatrices draws = matrices at hrow ⊢
  unfold rowArguments Model.argumentValues
  change _ = (List.filterMap _ p.inputs.zipIdx).map _
  rw [List.map_filterMap]
  refine List.filterMap_congr fun ((v, role), d) hmem => ?_
  obtain ⟨i, node, hi, hnode, hdeclares, hd⟩ := exists_node_of_input observations
    hparents horder (List.mem_zipIdx_iff_getElem?.mp hmem)
  simp only [hi, hrow hnode hd]
  by_cases hhyper : v.isHyper = true
  · simp [hhyper]
  · by_cases hscalar : v.shape = .scalar
    · simp [hhyper, hnode, hscalar, hdeclares.isScalar_iff.mpr hscalar, State.value,
        Array.getD_eq_getD_getElem?, List.getD_eq_getElem?_getD]
    · have hvector : node.isScalar = false :=
        Bool.eq_false_iff.mpr (mt hdeclares.isScalar_iff.mp hscalar)
      simp [hhyper, hnode, hscalar, hvector]

/-- The recorded outputs are those at the draw. -/
theorem rowOutputs_recordedMatrices (hparents : p.parents = .ok parents)
    (horder : Order.topological parents = .ok order)
    (hwf : (p.model parents order observations).WellFormed)
    (hevaluate : (p.model parents order observations).evaluate draw.state = .ok draw.outputs)
    (hr : draws[r]? = some draw) :
    p.rowOutputs ((p.model parents order observations).recordedMatrices draws) r =
      draw.outputs := by
  rw [← Model.rowOutputs_recordedMatrices hwf (Model.evaluate_widths hevaluate) hr]
  obtain ⟨hnames, _⟩ := tracedVariables_model observations hparents horder
  have hlength : ((p.model parents order observations).recordedMatrices draws).length =
      p.inputs.length + p.outputs.length := by
    simpa [Model.recordedMatrices, names] using congrArg List.length hnames
  generalize (p.model parents order observations).recordedMatrices draws = matrices at hlength ⊢
  have hdeclaration : (p.model parents order observations).declaration.length = p.inputs.length :=
    length_declarationOf hparents horder
  unfold rowOutputs Model.rowOutputs
  rw [hdeclaration]
  refine List.ext_getElem? fun o => ?_
  change _ = (List.map _ (List.range p.outputs.length))[o]?
  rw [List.getElem?_map, List.getElem?_drop, List.getElem?_map]
  by_cases ho : o < p.outputs.length
  · have hlt : p.inputs.length + o < matrices.length := by omega
    simp only [List.getElem?_range ho, List.getElem?_eq_getElem hlt, Option.map_some,
      Option.getD_some]
  · have hout : matrices.length ≤ p.inputs.length + o := by omega
    rw [List.getElem?_eq_none hout, List.getElem?_eq_none (by simpa using ho)]
    rfl

end Rows

end Program

theorem InferenceConfig.chains_ne_zero {c : InferenceConfig} (h : c.validate = .ok ()) :
    c.chains ≠ 0 := by
  intro hzero
  unfold validate at h
  by_cases hsamples : c.sampleCount = 0
  · simp [hsamples, throw, throwThe, MonadExceptOf.throw, Bind.bind, Except.bind] at h
  · simp [hsamples, hzero, throw, throwThe, MonadExceptOf.throw, Bind.bind, Except.bind] at h

theorem InferenceConfig.chains_pos {c : InferenceConfig} (h : c.validate = .ok ()) :
    0 < c.chains.toNat :=
  Nat.pos_of_ne_zero fun hzero => chains_ne_zero h (UInt64.toNat_inj.mp hzero)

section Inference

variable {σ : Type} [RandomWords σ] {p : Program α} {m : Model α}

/-- The trace of the chains of a compiled program has its variables, with one matrix for each. -/
theorem Trace.wellFormed_ofRuns (hm : p.compile = .ok m) (isConditioned : Bool)
    (runs : List (ChainRun α)) : (Trace.ofRuns m isConditioned runs).WellFormed := by
  obtain ⟨parents, order, observations, hchecked, hparents, horder, _, rfl⟩ :=
    Program.compile_eq hm
  obtain ⟨hnames, _⟩ := Program.tracedVariables_model observations hparents horder
  refine ⟨hnames ▸ Program.names_nodup hchecked, fun hmem => ?_⟩
  obtain ⟨run, _, rfl⟩ := List.mem_map.mp hmem
  exact Model.width_recordedMatrices _ _

/-- Chains that record what they should make up a trace of the program. -/
theorem Trace.samples_ofRuns (hp : p.Declared) (hm : p.compile = .ok m) {isConditioned : Bool}
    {runs : List (ChainRun α)} {n : Nat} (hne : runs ≠ [])
    (hruns : ∀ run ∈ runs, run.Records m n) :
    (Trace.ofRuns m isConditioned runs).Samples p runs.length n := by
  have hwf := Program.wellFormed_of_compile hp hm
  have htrace := Trace.wellFormed_ofRuns hm isConditioned runs
  obtain ⟨parents, order, observations, hchecked, hparents, horder, _, rfl⟩ :=
    Program.compile_eq hm
  obtain ⟨hnames, hwidths⟩ := Program.tracedVariables_model observations hparents horder
  have hmatrices {matrices : List (Matrix α)}
      (hmem : matrices ∈ (Trace.ofRuns (p.model parents order observations) isConditioned
        runs).chains) :
      ∃ run ∈ runs, (p.model parents order observations).recordedMatrices run.draws = matrices :=
    List.mem_map.mp hmem
  refine ⟨List.length_map _, fun hmem => (htrace.widths_eq hmem).trans hwidths, ?_, ?_, ?_⟩
  · intro matrices matrix hmem hmatrix
    obtain ⟨run, hrun, rfl⟩ := hmatrices hmem
    exact (Model.size_of_mem_recordedMatrices hmatrix).trans (hruns run hrun).1
  · intro matrices r hmem hr
    obtain ⟨run, hrun, rfl⟩ := hmatrices hmem
    obtain ⟨hlength, hconsistent⟩ := hruns run hrun
    have hget := List.getElem?_eq_getElem (hlength ▸ hr)
    have hdraw := hconsistent _ (List.getElem_mem (hlength ▸ hr))
    rw [Program.rowArguments_recordedMatrices hparents horder hwf hdraw.fits hget,
      Program.rowOutputs_recordedMatrices hparents horder hwf hdraw.outputs_eq hget]
    exact Model.exists_values_of_evaluate hdraw.outputs_eq
  · intro v width e name hname hwidth hvalid he hword
    rw [← hnames, List.getElem?_map, Option.map_eq_some_iff] at hname
    obtain ⟨info, hinfo, rfl⟩ := hname
    rw [← hwidths, List.getElem?_map, hinfo] at hwidth
    cases hwidth
    obtain ⟨merged, column, xs, hlookups⟩ :=
      htrace.samples_element (by simpa [Trace.ofRuns] using hne) hinfo hvalid he hword
    exact ⟨merged, column, _, xs, hlookups⟩

/-- A run that succeeds gives the trace of its chains, of which there is one at least. -/
theorem exists_runs_of_inferWithin {config : InferenceConfig} {stream : Nat → σ}
    {allowance : Nat → Option Nat} {t : Trace α}
    (ht : inferWithin m config stream allowance = .ok t) :
    ∃ runs : List (ChainRun α), runs ≠ [] ∧ runs.length = config.chains.toNat ∧
      (∀ run ∈ runs, ∃ chain,
        ((runChain m config (allowance chain) chain).run (stream chain)).1 = .ok run) ∧
      t = Trace.ofRuns m (!m.drawsPrior config.strategy && m.isConditioned) runs := by
  obtain ⟨_, hvalid, h⟩ := Except.bind_eq_ok_iff.mp ht
  obtain ⟨runs, hruns, h⟩ := Except.bind_eq_ok_iff.mp h
  cases h
  have hlength : runs.length = config.chains.toNat := by
    simpa using (Except.mapM_eq_ok_iff.mp hruns).length_eq.symm
  refine ⟨runs, ?_, hlength, fun run hrun => ?_, rfl⟩
  · rintro rfl
    have hzero : config.chains.toNat = 0 := hlength.symm
    rw [Except.mapError_eq_ok_iff] at hvalid
    exact (InferenceConfig.chains_pos hvalid).ne' hzero
  · obtain ⟨chain, _, hanswer⟩ := Except.exists_of_mem_mapM hruns hrun
    exact ⟨chain, hanswer⟩

/-- A run without a time budget gives a trace of the whole program, as long as was asked for. -/
theorem inferWith_samples [LawfulScalar α] [LawfulExp α] (hp : p.Declared)
    (hm : p.compile = .ok m) {config : InferenceConfig} (hbudget : config.timeBudget = none)
    (hwords : config.tune.toNat + config.sampleCount.toNat < 2 ^ 64) {stream : Nat → σ}
    {t : Trace α} (ht : inferWith m config stream = .ok t) :
    t.Samples p config.chains.toNat config.sampleCount.toNat := by
  have hwf := Program.wellFormed_of_compile hp hm
  obtain ⟨runs, hchains, hlength, hruns, rfl⟩ := exists_runs_of_inferWithin ht
  rw [← hlength]
  refine Trace.samples_ofRuns hp hm hchains fun run hrun => ?_
  obtain ⟨chain, hanswer⟩ := hruns run hrun
  have hallowance : config.allowance = none := by
    simp [InferenceConfig.allowance, hbudget]
  rw [hallowance] at hanswer
  exact runChain_records hwf hwords chain (stream chain) run hanswer

/-- Every chain on the certain coin starts, and a run of them succeeds. -/
theorem certainCoin_inferWith {config : InferenceConfig} (hvalid : config.validate = .ok ())
    (hauto : config.strategy = .auto) (hattempts : config.maxInitAttempts = 1000)
    (stream : Nat → σ) : ∃ t, inferWith Chain.certainCoinModel config stream = .ok t := by
  have hchain (chain : Nat) : ∃ run, ((runChain Chain.certainCoinModel config config.allowance
      chain).run (stream chain)).1 = .ok run := by
    have hstart : ((Chain.init Chain.certainCoinModel chain config.maxInitAttempts.toNat).run :
        Random σ _).Always fun started => ∃ c, started = .ok (some c) := by
      rw [hattempts]
      exact (Chain.certainCoin_init chain 999).mono fun started ⟨c, hc, _⟩ => ⟨c, hc⟩
    obtain ⟨run, hrun, _⟩ := markovChain_kept hstart config.allowance (stream chain)
    unfold runChain
    rw [hauto]
    exact ⟨run, hrun⟩
  choose run hrun using hchain
  exact ⟨_, Except.bind_eq_ok_iff.mpr ⟨(), Except.mapError_eq_ok_iff.mpr hvalid,
    Except.bind_eq_ok_iff.mpr ⟨_, Except.mapM_eq_ok_map fun chain _ => hrun chain, rfl⟩⟩⟩

/-- Two chains of three draws, after five iterations for tuning. -/
def twoChains : InferenceConfig := { sampleCount := 3, chains := 2, tune := 5 }

/-- The draws of two chains on the certain coin. -/
theorem certainCoin_samples :
    Chain.certainCoin.Declared ∧ Chain.certainCoin.compile = .ok Chain.certainCoinModel ∧
      twoChains.timeBudget = none ∧
      twoChains.tune.toNat + twoChains.sampleCount.toNat < 2 ^ 64 ∧
      ∃ t, inferWith Chain.certainCoinModel twoChains (Xoshiro.ofSeedJumped 0) = .ok t ∧
        t.Samples Chain.certainCoin 2 3 := by
  obtain ⟨t, ht⟩ :=
    certainCoin_inferWith (show twoChains.validate = .ok () from rfl) rfl rfl
      (Xoshiro.ofSeedJumped 0)
  have hwords : twoChains.tune.toNat + twoChains.sampleCount.toNat < 2 ^ 64 := by decide
  exact ⟨Chain.certainCoin_declared, Chain.certainCoin_compile, rfl, hwords, t, ht,
    inferWith_samples Chain.certainCoin_declared Chain.certainCoin_compile rfl hwords ht⟩

end Inference

end InfoFlow
