import InfoFlow.Proofs.Inference.Traces
import InfoFlow.Proofs.Model.Constants
import InfoFlow.Proofs.Model.Observed
import InfoFlow.Scalar.Double

namespace InfoFlow

variable {α : Type}

namespace Model

/-- The site of traced variable `v`, as a whole or one element of it: the node of an input, or an
output. -/
def siteOf (m : Model α) (v : Nat) (element : Option Nat) : Site :=
  match m.declaration[v]? with
  | some i => .node i element
  | none => .output (v - m.declaration.length) element

/-- A traced variable is a node at the place where it was declared, or one of the outputs that follow
the nodes. -/
theorem tracedVariables_cases {m : Model α} (hm : m.WellFormed) {v : Nat} {info : TracedVariable}
    (hv : m.tracedVariables[v]? = some info) :
    (∃ i node, m.declaration[v]? = some i ∧ m.nodes[i]? = some node ∧ info.name = node.name ∧
        info.width = node.width ∧ info.isDiscrete = node.isDiscrete) ∨
      ∃ o output, v = m.declaration.length + o ∧ m.outputs[o]? = some output ∧
        info.name = output.name ∧ info.width = output.width ∧
        info.isDiscrete = output.isDiscrete := by
  unfold tracedVariables at hv
  by_cases hlt : v < m.declaration.length
  · rw [List.getElem?_append_left (by rwa [length_inputs hm]),
      getElem?_filterMap_of_isSome (isSome_of_mem_declaration hm),
      List.getElem?_eq_getElem hlt, Option.bind_some, Option.map_eq_some_iff] at hv
    obtain ⟨node, hnode, rfl⟩ := hv
    exact .inl ⟨_, node, List.getElem?_eq_getElem hlt, hnode, rfl, rfl, rfl⟩
  · rw [List.getElem?_append_right (by rw [length_inputs hm]; omega), length_inputs hm,
      List.getElem?_map, Option.map_eq_some_iff] at hv
    obtain ⟨output, houtput, rfl⟩ := hv
    exact .inr ⟨v - m.declaration.length, output, by omega, houtput, rfl, rfl, rfl⟩

end Model

variable [Scalar α]

namespace Program

variable {p : Program α} {m : Model α} {v : Nat} {info : TracedVariable} {target : String}
  {s : Selector}

theorem outputs_of_compile (hm : p.compile = .ok m) : m.outputs = p.outputs := by
  obtain ⟨_, _, _, _, _, _, _, rfl⟩ := compile_eq hm
  rfl

theorem names_nodup_of_compile (hm : p.compile = .ok m) : p.names.Nodup := by
  obtain ⟨_, _, _, hchecked, _⟩ := compile_eq hm
  exact names_nodup hchecked

/-- A target that selects from a traced variable is bound to that variable, if it has the element. -/
theorem observationSite_traced (hp : p.Declared) (hm : p.compile = .ok m)
    (hv : m.tracedVariables[v]? = some info) (hs : Selector.parse? target = some s)
    (hname : info.name = s.name) :
    p.observationSite m.declaration target = (do
      checkElement target s info.width
      return (m.siteOf v s.index, info.isDiscrete)) := by
  have hnames := names_nodup_of_compile hm
  have houtputs := outputs_of_compile hm
  obtain ⟨_, hdistinct, hapart⟩ := List.nodup_append.mp hnames
  have hwf := wellFormed_of_compile hp hm
  rcases Model.tracedVariables_cases hwf hv with
    ⟨i, node, hi, hnode, hnode_name, hwidth, hdiscrete⟩ |
    ⟨o, output, rfl, ho, houtput_name, hwidth, hdiscrete⟩
  · obtain ⟨x, role, hx, hdeclares, _⟩ :=
      (represents_of_wellFormed hp hm hwf).declares hi hnode
    have hsame : x.name = s.name := by rw [← hdeclares.name_eq, ← hnode_name, hname]
    have hnone : p.outputs.findIdx? (·.name == s.name) = none := by
      refine findIdx?_key_eq_none_iff.mpr fun houtput => ?_
      exact hapart _ (List.mem_map_of_mem (List.mem_of_getElem? hx)) _ houtput hsame
    have hindex : p.inputIndex? s.name = some v :=
      (inputIndex?_eq_some_iff hnames).mpr ⟨x, role, hx, hsame⟩
    have hdiscrete' : info.isDiscrete = x.isDiscrete := by
      rw [hdiscrete]
      exact congrArg Family.isDiscrete hdeclares.family_eq
    rw [observationSite_input hs hnone hindex hx hi, hwidth, hdiscrete', hdeclares.width_eq]
    unfold Model.siteOf
    rw [hi]
  · rw [houtputs] at ho
    have hsame : output.name = s.name := by rw [← houtput_name, hname]
    have hindex : p.outputs.findIdx? (·.name == s.name) = some o :=
      hsame ▸ findIdx?_key hdistinct ho
    have hout : m.declaration[m.declaration.length + o]? = none :=
      List.getElem?_eq_none (Nat.le_add_right _ _)
    rw [observationSite_output hs hindex ho, hwidth, hdiscrete]
    unfold Model.siteOf
    rw [hout, Nat.add_sub_cancel_left]

theorem names_tracedVariables (hm : p.compile = .ok m) :
    m.tracedVariables.map TracedVariable.name = p.names := by
  obtain ⟨parents, order, observations, _, hparents, horder, _, rfl⟩ := compile_eq hm
  exact (tracedVariables_model observations hparents horder).1

/-- A target that selects from none of the traced variables is refused. -/
theorem observationSite_untraced (hm : p.compile = .ok m)
    (hs : ∀ s, Selector.parse? target = some s → s.name ∉ m.tracedVariables.map TracedVariable.name) :
    p.observationSite m.declaration target = .error (.unknownObservationTarget target) := by
  unfold observationSite
  cases hparse : Selector.parse? target with
  | none => rfl
  | some s =>
    have hname := hs s hparse
    rw [names_tracedVariables hm, names, List.mem_append, not_or] at hname
    have houtput : p.outputs.findIdx? (·.name == s.name) = none :=
      findIdx?_key_eq_none_iff.mpr hname.2
    simp only [houtput, inputIndex?_eq_none_iff.mpr hname.1]
    rfl

theorem forall₂_observations (hm : p.compile = .ok m) :
    List.Forall₂ (fun o bound => p.bindObservation m.declaration o = .ok bound) p.observations
      m.observations := by
  obtain ⟨_, _, _, _, _, _, hobservations, rfl⟩ := compile_eq hm
  exact Except.mapM_eq_ok_iff.mp hobservations

/-- Observations of the target are bound to the site: those of the program, and one more if there
were one. -/
structure Binds (p : Program α) (m : Model α) (target : String) (site : Site)
    (isDiscrete : Bool) : Prop where
  declared {k : Nat} {o : Observation α} : p.observations[k]? = some o → o.target = target →
    m.observations[k]? = some ⟨site, o.constraints, o.precision, isDiscrete⟩
  added (o : Observation α) : o.target = target → ∃ m', (p.withObservation o).compile = .ok m' ∧
    m'.declaration = m.declaration ∧
    m'.observations = m.observations ++ [⟨site, o.constraints, o.precision, isDiscrete⟩]

/-- There are no observations of the target, and with one the program is refused. -/
structure Refuses (p : Program α) (target : String) : Prop where
  declared {o : Observation α} : o ∈ p.observations → o.target ≠ target
  added (o : Observation α) : o.target = target →
    (p.withObservation o).compile = .error (.error (.unknownObservationTarget target))

theorem binds_of_observationSite (hm : p.compile = .ok m) {site : Site} {isDiscrete : Bool}
    (hsite : p.observationSite m.declaration target = .ok (site, isDiscrete)) :
    p.Binds m target site isDiscrete := by
  have hbind {o : Observation α} (ho : o.target = target) : p.bindObservation m.declaration o =
      .ok ⟨site, o.constraints, o.precision, isDiscrete⟩ := by
    unfold bindObservation
    rw [ho, hsite]
    rfl
  constructor
  · intro k o hk ho
    have hall := forall₂_observations hm
    obtain ⟨hlt, rfl⟩ := List.getElem?_eq_some_iff.mp hk
    have hlt' : k < m.observations.length := hall.length_eq ▸ hlt
    have hkth := hall.get hlt hlt'
    rw [List.get_eq_getElem, hbind ho] at hkth
    rw [Except.ok.inj hkth]
    exact List.getElem?_eq_getElem hlt'
  · intro o ho
    rcases compile_withObservation hm o with ⟨bound, m', hbound, hcompile⟩ | ⟨e, herror, _⟩
    · rw [hbind ho] at hbound
      cases hbound
      exact ⟨m', hcompile⟩
    · rw [hbind ho] at herror
      cases herror

theorem refuses_of_observationSite (hm : p.compile = .ok m)
    (hsite : p.observationSite m.declaration target =
      .error (.unknownObservationTarget target)) : p.Refuses target := by
  have hbind {o : Observation α} (ho : o.target = target) : p.bindObservation m.declaration o =
      .error (.unknownObservationTarget target) := by
    unfold bindObservation
    rw [ho, hsite]
    rfl
  constructor
  · intro o hmem ho
    obtain ⟨bound, _, hbound⟩ := (forall₂_observations hm).exists_of_mem_left hmem
    rw [hbind ho] at hbound
    cases hbound
  · intro o ho
    rcases compile_withObservation hm o with ⟨bound, _, hbound, _⟩ | ⟨e, herror, hcompile⟩
    · rw [hbind ho] at hbound
      cases hbound
    · rw [hbind ho] at herror
      cases herror
      exact hcompile

end Program

namespace Trace

/-- The selector stands for all samples of a variable. -/
def SelectsAll (t : Trace α) (selector : String) (info : TracedVariable) : Prop :=
  ∃ merged, t.merged info.name = pure merged ∧ t.samples selector = pure (merged, info.isDiscrete)

/-- The selector stands for the samples of one element of a variable. -/
def SelectsElement (t : Trace α) (selector : String) (info : TracedVariable) (e : Nat) : Prop :=
  ∃ merged column, t.merged info.name = pure merged ∧ merged.ofColumn? e = some column ∧
    t.samples selector = pure (column, info.isDiscrete)

end Trace

section Inference

variable {σ : Type} [RandomWords σ] {p : Program α} {m : Model α} {config : InferenceConfig}
  {stream : Nat → σ} {allowance : Nat → Option Nat} {t : Trace α} {v : Nat}
  {info : TracedVariable}

/-- A selector of an element selects it in the trace and as a target, or nothing in either place if the
variable is not wide enough. -/
theorem element_selects (hp : p.Declared) (hm : p.compile = .ok m) (htrace : t.WellFormed)
    (hchains : t.chains ≠ []) (htraced : t.traced = m.tracedVariables)
    (hv : m.tracedVariables[v]? = some info) {target : String} {e : Nat}
    (hparse : Selector.parse? target = some ⟨info.name, some e⟩) :
    (t.samples target = failure ∧ p.Refuses target) ∨
      e < info.width ∧ t.SelectsElement target info e ∧
        p.Binds m target (m.siteOf v (some e)) info.isDiscrete := by
  have hsite := Program.observationSite_traced hp hm hv hparse rfl
  rcases Program.checkElement_cases target ⟨info.name, some e⟩ info.width with
    ⟨hok, hfits⟩ | ⟨herror, hbeyond⟩
  · have he : e < info.width := hfits e rfl
    obtain ⟨merged, column, hmerged, _, _, hcolumn, hsamples⟩ :=
      htrace.samples_column hchains (htraced ▸ hv) hparse he
    refine .inr ⟨he, ⟨merged, column, hmerged, hcolumn, hsamples⟩, ?_⟩
    refine Program.binds_of_observationSite hm ?_
    rw [hsite, hok]
    rfl
  · have he : info.width ≤ e := by simpa [Selector.FitsWidth] using hbeyond
    refine .inl ⟨htrace.samples_beyond hchains (htraced ▸ hv) hparse he, ?_⟩
    refine Program.refuses_of_observationSite hm ?_
    rw [hsite, herror]
    rfl

/-- A variable whose name is one that selectors can have is selected by its name, as a whole, in the
trace and by observations. Any other name selects nothing in either place, or in both the same element
of another variable. -/
theorem own_name_selects (hp : p.Declared) (hm : p.compile = .ok m)
    (ht : inferWithin m config stream allowance = .ok t) (hv : t.traced[v]? = some info) :
    (Selector.isName info.name.toList = true → t.SelectsAll info.name info ∧
      p.Binds m info.name (m.siteOf v none) info.isDiscrete) ∧
    (Selector.isName info.name.toList = false →
      (t.samples info.name = failure ∧ p.Refuses info.name) ∨
      ∃ u other e, u ≠ v ∧ t.traced[u]? = some other ∧ e < other.width ∧
        t.SelectsElement info.name other e ∧
        p.Binds m info.name (m.siteOf u (some e)) other.isDiscrete) := by
  obtain ⟨runs, hne, _, _, rfl⟩ := exists_runs_of_inferWithin ht
  have htrace := Trace.wellFormed_ofRuns hm (!m.drawsPrior config.strategy && m.isConditioned) runs
  generalize hofRuns : Trace.ofRuns m _ runs = t at htrace hv ⊢
  have hchains : t.chains ≠ [] := by simpa [← hofRuns, Trace.ofRuns] using hne
  have htraced : t.traced = m.tracedVariables := by rw [← hofRuns]; rfl
  rw [htraced] at hv ⊢
  constructor
  · intro hname
    have hparse := Selector.parse?_name hname
    refine ⟨htrace.samples_whole hchains (htraced ▸ hv) hparse, ?_⟩
    refine Program.binds_of_observationSite hm ?_
    rw [Program.observationSite_traced hp hm hv hparse rfl]
    rfl
  · intro hname
    have hunknown (hs : ∀ s, Selector.parse? info.name = some s →
        s.name ∉ m.tracedVariables.map TracedVariable.name) :
        t.samples info.name = failure ∧ p.Refuses info.name :=
      ⟨Trace.samples_unknown (htraced ▸ hs),
        Program.refuses_of_observationSite hm (Program.observationSite_untraced hm hs)⟩
    rcases Selector.parse?_of_not_isName hname with hparse | ⟨name, e, hparse, hother⟩
    · exact .inl (hunknown (by simp [hparse]))
    by_cases hmem : name ∈ m.tracedVariables.map TracedVariable.name
    · obtain ⟨other, hfound, rfl⟩ := List.mem_map.mp hmem
      obtain ⟨u, hu⟩ := List.mem_iff_getElem?.mp hfound
      refine (element_selects hp hm htrace hchains htraced hu hparse).imp_right fun hselects =>
        ⟨u, other, e, ?_, hu, hselects⟩
      rintro rfl
      rw [hu] at hv
      cases hv
      exact hother rfl
    · exact .inl (hunknown (by simpa [hparse] using hmem))

end Inference

namespace Program

/-- Two constants, of which one is named like an element of the other. -/
def shadowed : Program Float where
  name := "shadowed"
  inputs := [(⟨"x", .constant, [.value 0], .vector 2, false⟩, .secret),
    (⟨"x[0]", .constant, [.value 1], .scalar, false⟩, .secret)]
  outputs := [⟨"out", false, 1⟩]
  transformation arguments := .ok (arguments.drop 1)
  observations := []

def shadowedModel : Model Float := shadowed.model [[], []] [0, 1] []

private theorem isFinite_zero : Scalar.isFinite (0 : Float) = true := by decide +kernel

private theorem isFinite_one : Scalar.isFinite (1 : Float) = true := by decide +kernel

theorem shadowed_declared : shadowed.Declared := by
  intro input hinput
  simp only [shadowed, List.mem_cons, List.not_mem_nil, or_false] at hinput
  rcases hinput with rfl | rfl
  · exact .withElements (n := 2) (.declare (Variable.declare_constant "x" isFinite_zero)) rfl
  · exact .declare (Variable.declare_constant "x[0]" isFinite_one)

theorem shadowed_samplePrior {σ : Type} [RandomWords σ] :
    (shadowedModel.samplePrior : Random σ _) = pure (.ok #[#[0, 0], #[1]]) := by
  obtain ⟨x, other, hnodes, hx, hother, hwidth, hwidth'⟩ :
      ∃ x other, shadowedModel.nodes.toList = [x, other] ∧ x.literal = some (.constant 0) ∧
        other.literal = some (.constant 1) ∧ x.width = 2 ∧ other.width = 1 := by
    refine ⟨_, _, rfl, ?_, ?_, rfl, rfl⟩
    · exact congrArg (·.bind (·.toOption))
        (Variable.distribution?_constant "x" (.vector 2) false isFinite_zero)
    · exact congrArg (·.bind (·.toOption))
        (Variable.distribution?_constant "x[0]" .scalar false isFinite_one)
  unfold Model.samplePrior
  rw [hnodes, Model.drawNodes_constant_cons hx, Model.drawNodes_constant_cons hother, hwidth,
    hwidth']
  rfl

theorem shadowed_compile : shadowed.compile = .ok shadowedModel := by
  have hassemble : shadowed.assemble = .ok shadowedModel :=
    assemble_eq rfl rfl rfl (checkLiterals_eq_ok shadowed_declared [0, 1])
  refine compile_of_samplePrior hassemble ?_
  rw [shadowed_samplePrior]
  exact Random.Always.of_pure ⟨_, _, rfl, rfl⟩

/-- The one draw of a run on the two constants. -/
def shadowedRun : ChainRun Float := ⟨[⟨#[#[0, 0], #[1]], [[1]]⟩], 1, 0, [], false⟩

theorem shadowed_inferWithin (stream : Nat → Xoshiro) :
    inferWithin shadowedModel singleDraw stream (fun _ => none) =
      .ok (Trace.ofRuns shadowedModel false [shadowedRun]) := by
  have hattempt : (PriorChain.attempt shadowedModel : Random Xoshiro _) =
      pure (.ok ⟨#[#[0, 0], #[1]], [[1]]⟩) := by
    unfold PriorChain.attempt
    rw [shadowed_samplePrior]
    rfl
  have hrun : (runChain shadowedModel singleDraw none 0 : Random Xoshiro _) =
      pure (.ok shadowedRun) := by
    change ((PriorChain.run shadowedModel 0 (999 + 1) (0 + 1) 0 ⟨[], 0, []⟩).run >>= _) = _
    unfold PriorChain.run PriorChain.record
    rw [hattempt]
    rfl
  refine Except.bind_eq_ok_iff.mpr ⟨(), rfl, Except.bind_eq_ok_iff.mpr ⟨[shadowedRun], ?_, rfl⟩⟩
  refine Except.mapM_eq_ok_iff.mpr (.cons ?_ .nil)
  rw [hrun]
  rfl

theorem shadowed_traced : ∃ x other, shadowedModel.tracedVariables[0]? = some x ∧
    shadowedModel.tracedVariables[1]? = some other ∧ x.name = "x" ∧ other.name = "x[0]" :=
  ⟨_, _, rfl, rfl, rfl, rfl⟩

private theorem parse?_shadowed : Selector.parse? "x[0]" = some ⟨"x", some 0⟩ := by
  decide +kernel

/-- Neither a query nor an observation gets at the variable `x[0]` by its name: both get the first
element of `x`, which has another value. -/
theorem shadowed_selects_other :
    shadowed.Declared ∧ shadowed.compile = .ok shadowedModel ∧
      ∃ t info merged, inferWithin shadowedModel singleDraw (Xoshiro.ofSeedJumped 0)
          (fun _ => none) = .ok t ∧
        t.traced[1]? = some info ∧ info.name = "x[0]" ∧ t.merged info.name = pure merged ∧
        (∀ isDiscrete, t.samples info.name ≠ pure (merged, isDiscrete)) ∧
        ∀ o : Observation Float, o.target = info.name → ∃ m' bound,
          (shadowed.withObservation o).compile = .ok m' ∧ m'.observations = [bound] ∧
            bound.site ≠ shadowedModel.siteOf 1 none := by
  have hmerged : (Trace.ofRuns shadowedModel false [shadowedRun]).merged "x" =
      pure ⟨2, #[#v[0, 0]], .byRow⟩ := rfl
  have hcolumn : Matrix.ofColumn? (⟨2, #[#v[0, 0]], .byRow⟩ : Matrix Float) 0 =
      some ⟨1, #[#v[0]], .byRow⟩ := by
    simp [Matrix.ofColumn?]
  have hsamples : (Trace.ofRuns shadowedModel false [shadowedRun]).samples "x[0]" =
      pure (⟨1, #[#v[0]], .byRow⟩, true) := by
    unfold Trace.samples
    simp only [parse?_shadowed, Lookup.optional, pure_bind, hmerged, hcolumn]
    rfl
  have hsite : shadowed.observationSite [0, 1] "x[0]" = .ok (.node 0 (some 0), true) := by
    unfold observationSite
    rw [parse?_shadowed]
    rfl
  obtain ⟨_, info, _, hinfo, _, hname⟩ := shadowed_traced
  refine ⟨shadowed_declared, shadowed_compile, _, info, ⟨1, #[#v[1]], .byRow⟩,
    shadowed_inferWithin _, hinfo, hname, ?_, fun isDiscrete hsame => ?_, fun o ho => ?_⟩
  · rw [hname]
    rfl
  · rw [hname, hsamples] at hsame
    have hvalues := congrArg Matrix.toLists
      (congrArg Prod.fst (Option.some.inj (Except.ok.inj hsame)))
    have hfirst : [[(0 : Float)]] = [[1]] := hvalues
    exact absurd (congrArg (·.flatten.all (· == 0)) hfirst) (by decide +kernel)
  · rw [hname] at ho
    obtain ⟨m', hcompile, _, hobservations⟩ :=
      (binds_of_observationSite shadowed_compile hsite).added o ho
    refine ⟨m', _, hcompile, hobservations, ?_⟩
    intro hsame
    cases hsame

/-- What the names of the two constants select. -/
theorem shadowed_names_select :
    shadowed.Declared ∧ shadowed.compile = .ok shadowedModel ∧
      ∃ t x other, inferWithin shadowedModel singleDraw (Xoshiro.ofSeedJumped 0)
          (fun _ => none) = .ok t ∧
        t.traced[0]? = some x ∧ t.traced[1]? = some other ∧
        (t.SelectsAll x.name x ∧
          shadowed.Binds shadowedModel x.name (shadowedModel.siteOf 0 none) x.isDiscrete) ∧
        ((t.samples other.name = failure ∧ shadowed.Refuses other.name) ∨
          ∃ u selected e, u ≠ 1 ∧ t.traced[u]? = some selected ∧ e < selected.width ∧
            t.SelectsElement other.name selected e ∧
            shadowed.Binds shadowedModel other.name (shadowedModel.siteOf u (some e))
              selected.isDiscrete) := by
  have hinfer := shadowed_inferWithin (Xoshiro.ofSeedJumped 0)
  obtain ⟨x, other, hx, hother, hname, hname'⟩ := shadowed_traced
  refine ⟨shadowed_declared, shadowed_compile, _, x, other, hinfer, hx, hother, ?_, ?_⟩
  · refine (own_name_selects shadowed_declared shadowed_compile hinfer hx).1 ?_
    rw [hname]
    unfold Selector.isName Selector.isNameStart Text.isAlphabetic
    simp only [Text.inRanges_eq]
    decide +kernel
  · refine (own_name_selects shadowed_declared shadowed_compile hinfer hother).2 ?_
    rw [hname', Bool.eq_false_iff]
    intro hvalid
    have hbracket := Selector.ne_bracket_of_isName hvalid '[' (by decide)
    cases hbracket

end Program

end InfoFlow
