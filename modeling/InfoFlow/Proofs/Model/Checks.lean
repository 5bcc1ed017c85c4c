import InfoFlow.Proofs.Model.Compile
import InfoFlow.Proofs.Model.Cycles
import InfoFlow.Proofs.Model.Draws
import InfoFlow.Proofs.Model.Probe
import InfoFlow.Proofs.Model.Observed
import InfoFlow.Proofs.Model.Targets
import InfoFlow.Proofs.Random.Preparation

namespace InfoFlow.Program

variable {α : Type}

/-- The input of a name has a parameter that references the target. -/
def References (p : Program α) (name target : String) : Prop :=
  ∃ input ∈ p.inputs, input.1.name = name ∧ .reference target ∈ input.1.parameters

def OutputsFault (p : Program α) (e : CompileError) : Prop := p.outputs = [] ∧ e = .noOutputs

def NamesFault (p : Program α) (e : CompileError) : Prop :=
  ∃ name, IsFirstRepeated p.names name ∧ e = .duplicateVariable name

/-- What is wrong with a reference of an input. -/
inductive ReferenceFault (p : Program α) (v : Variable α) (parameter target : String) :
    CompileError → Prop where
  | unresolved : target ∉ p.inputs.map (·.1.name) →
      ReferenceFault p v parameter target (.unresolvedReference v.name parameter target)
  | self : target = v.name → ReferenceFault p v parameter target (.cycle [v.name])
  | width {input : Variable α × Role} : input ∈ p.inputs → input.1.name = target →
      input.1.width ≠ 1 → input.1.width ≠ v.width → ReferenceFault p v parameter target
        (.notBroadcastable v.name parameter target input.1.width v.width)

/-- The checks of an input's references. -/
def referenceChecks (p : Program α) (v : Variable α) : List (CompileError → Prop) :=
  v.references.map fun (parameter, target) => p.ReferenceFault v parameter target

open Classical in
/-- The references form a cycle. The error names all inputs that lead to one, in declaration order. -/
def CycleFault (p : Program α) (e : CompileError) : Prop :=
  (∃ name, Relation.TransGen p.References name name) ∧
    e = .cycle ((p.inputs.map (·.1.name)).filter fun name => LeadsToCycle p.References name)

def TargetFault (p : Program α) (target : String) (e : CompileError) : Prop :=
  ¬ p.HasTarget target ∧ e = .unknownObservationTarget target

/-- The checks of the graph, in the order in which they are made. -/
def graphChecks (p : Program α) : List (CompileError → Prop) :=
  [p.OutputsFault, p.NamesFault] ++
    (p.inputs.flatMap fun input => p.referenceChecks input.1) ++
    [p.CycleFault] ++ p.observations.map fun o => p.TargetFault o.target

variable {p : Program α}

theorem checkNames_makes (p : Program α) : Makes p.checkNames [p.OutputsFault, p.NamesFault] := by
  intro e
  simp only [firstFault_cons_iff, firstFault_nil, and_false, or_false, OutputsFault, NamesFault]
  rcases p.checkNames_cases with
    ⟨hnone, herror⟩ | ⟨hsome, hnodup, hok⟩ | ⟨hsome, name, hfirst, herror⟩
  · rw [herror]
    simp [hnone, eq_comm]
  · rw [hok]
    simp [hsome, nodup_iff_not_isFirstRepeated.mp hnodup]
  · rw [herror]
    simp only [hsome, false_and, not_false_eq_true, implies_true, true_and, false_or,
      Except.error.injEq]
    constructor
    · rintro rfl
      exact ⟨name, hfirst, rfl⟩
    · rintro ⟨name', hfirst', rfl⟩
      rw [hfirst.unique hfirst']

/-- What can be wrong with a reference to an input that there is. -/
private theorem referenceFault_iff (hnames : p.names.Nodup) {d j : Nat} {v w : Variable α}
    {role role' : Role} (hd : p.inputs[d]? = some (v, role)) (hj : p.inputs[j]? = some (w, role'))
    (parameter : String) (e : CompileError) : p.ReferenceFault v parameter w.name e ↔
      j = d ∧ e = .cycle [v.name] ∨ (w.width ≠ 1 ∧ w.width ≠ v.width) ∧
        e = .notBroadcastable v.name parameter w.name w.width v.width := by
  have hmem := List.mem_of_getElem? hj
  constructor
  · rintro (hunknown | hsame | ⟨hinput, hsame, hone, hwidth⟩)
    · exact absurd (List.mem_map.mpr ⟨_, hmem, rfl⟩) hunknown
    · exact .inl ⟨input_unique hnames hj hd hsame, rfl⟩
    · rw [congrArg Prod.fst (input_eq_of_name hnames hj hinput hsame)] at hone hwidth ⊢
      exact .inr ⟨⟨hone, hwidth⟩, rfl⟩
  · rintro (⟨rfl, rfl⟩ | ⟨⟨hone, hwidth⟩, rfl⟩)
    · rw [hd] at hj
      cases hj
      exact .self rfl
    · exact .width hmem rfl hone hwidth

/-- A reference is resolved by the name of its target. -/
theorem resolveReference_makes (hnames : p.names.Nodup) {d : Nat} {v : Variable α} {role : Role}
    (hd : p.inputs[d]? = some (v, role)) (parameter target : String) :
    Makes (p.resolveReference d v parameter target) [p.ReferenceFault v parameter target] := by
  refine Makes.of_check fun e => ?_
  cases hindex : p.inputIndex? target with
  | none =>
    have hunknown := inputIndex?_eq_none_iff.mp hindex
    rw [resolveReference_of_none hindex]
    constructor
    · intro h
      cases h
      exact .unresolved hunknown
    · rintro (_ | rfl | ⟨hinput, rfl, _, _⟩)
      · rfl
      · exact absurd (List.mem_map.mpr ⟨_, List.mem_of_getElem? hd, rfl⟩) hunknown
      · exact absurd (List.mem_map.mpr ⟨_, hinput, rfl⟩) hunknown
  | some j =>
    obtain ⟨w, role', hj, rfl⟩ := exists_input_of_inputIndex? hindex
    rw [resolveReference_of_some hindex hj, referenceFault_iff hnames hd hj]
    split_ifs with hplace hwidth
    · have hsame : w.width = v.width := by
        subst hplace
        rw [hd] at hj
        cases hj
        rfl
      simp [hplace, hsame, eq_comm]
    · simp [hplace, hwidth, eq_comm]
    · simp [hplace, hwidth]

/-- The references of an input are resolved one after the other. -/
theorem parentsOf_makes (hnames : p.names.Nodup) {d : Nat} {v : Variable α} {role : Role}
    (hd : p.inputs[d]? = some (v, role)) : Makes (p.parentsOf d v) (p.referenceChecks v) := by
  unfold referenceChecks
  rw [List.map_eq_flatMap]
  refine Makes.foldlM fun r _ parents => ?_
  exact (resolveReference_makes hnames hd r.1 r.2).bind_ok fun j => ⟨_, rfl⟩

theorem parents_makes (hnames : p.names.Nodup) :
    Makes p.parents (p.inputs.flatMap fun input => p.referenceChecks input.1) := by
  have hinputs : p.inputs.zipIdx.map Prod.fst = p.inputs := List.zipIdx_map_fst 0 _
  conv => rhs; rw [← hinputs, List.flatMap_map]
  refine Makes.mapM fun ⟨⟨v, role⟩, d⟩ hmem => ?_
  exact parentsOf_makes hnames (List.mem_zipIdx_iff_getElem?.mp hmem)

theorem bindObservation_makes (hnames : p.names.Nodup) {declaration : List Nat}
    (hdeclaration : p.inputs.length ≤ declaration.length) (o : Observation α) :
    Makes (p.bindObservation declaration o) [p.TargetFault o.target] := by
  have hsite : Makes (p.observationSite declaration o.target) [p.TargetFault o.target] := by
    refine Makes.of_check fun e => ?_
    rcases observationSite_cases hnames hdeclaration o.target with
      ⟨s, site, isDiscrete, hok, _, htarget⟩ | ⟨herror, htarget⟩
    · simp [hok, TargetFault, htarget]
    · simp [herror, TargetFault, htarget, eq_comm]
  exact hsite.bind_ok fun found => ⟨_, rfl⟩

/-- Only inputs reference anything, so only inputs lead to a cycle. -/
theorem exists_input_of_leadsToCycle {name : String} (h : LeadsToCycle p.References name) :
    ∃ (i : Nat) (v : Variable α) (role : Role), p.inputs[i]? = some (v, role) ∧ v.name = name := by
  obtain ⟨target, hpath, hcycle⟩ := h
  obtain ⟨next, ⟨⟨v, role⟩, hmem, hname, _⟩, _⟩ :=
    Relation.TransGen.head'_iff.mp (hcycle.trans_right hpath)
  obtain ⟨i, hi⟩ := List.mem_iff_getElem?.mp hmem
  exact ⟨i, v, role, hi, hname⟩

variable [Scalar α]

/-- All checks; at the end, the transformation is tried on the graph. -/
def checks (p : Program α) : List (Failure CompileError → Prop) :=
  p.graphChecks.map Reported ++ [fun failure => ∃ m, p.assemble = .ok m ∧ ProbeFault m failure]

/-- A draw of the trial breaks down, after draws that fail. -/
def BreaksDown (p : Program α) (b : Breakdown) : Prop :=
  ∃ m k, p.assemble = .ok m ∧ k < probeAttempts ∧ FailsBefore m k ∧
    probeDraw m k = .error (.breakdown b)

/-- A program in which nothing is wrong. -/
structure Acceptable (p : Program α) : Prop where
  outputs_ne_nil : p.outputs ≠ []
  names_nodup : p.names.Nodup
  declared {name target : String} : p.References name target → target ∈ p.inputs.map (·.1.name)
  not_self (name : String) : ¬ p.References name name
  fits {input target : Variable α × Role} : input ∈ p.inputs → target ∈ p.inputs →
    .reference target.1.name ∈ input.1.parameters →
      target.1.width = 1 ∨ target.1.width = input.1.width
  acyclic (name : String) : ¬ Relation.TransGen p.References name name
  hasTarget {o : Observation α} : o ∈ p.observations → p.HasTarget o.target
  passesProbe {m : Model α} : p.assemble = .ok m → PassesProbe m

section Cycles

variable {parents : List (List Nat)}

/-- The parents of a place are those of the inputs that it references. -/
theorem dependsOn_iff (hp : p.Declared) (hparents : p.parents = .ok parents) {i j : Nat} :
    Order.DependsOn parents i j ↔ ∃ v role target, p.inputs[i]? = some (v, role) ∧
      .reference target ∈ v.parameters ∧ p.inputIndex? target = some j := by
  unfold Order.DependsOn
  cases hi : p.inputs[i]? with
  | none =>
    have hout : parents.length ≤ i := length_parents hparents ▸ List.getElem?_eq_none_iff.mp hi
    simp [List.getD_eq_getElem?_getD, List.getElem?_eq_none hout]
  | some input =>
    obtain ⟨v, role⟩ := input
    obtain ⟨ps, hps, hof⟩ := parents_getElem? hparents hi
    obtain ⟨_, hmem⟩ := mem_parentsOf_iff (hp _ (List.mem_of_getElem? hi)) hof
    rw [List.getD_eq_getElem?_getD, hps, Option.getD_some, hmem j]
    constructor
    · rintro ⟨target, htarget, hj⟩
      exact ⟨v, role, target, rfl, htarget, hj⟩
    · rintro ⟨v', role', target, heq, htarget, hj⟩
      cases heq
      exact ⟨target, htarget, hj⟩

/-- A place leads to a cycle of parents if its name leads to a cycle of references. -/
theorem leadsToCycle_iff (hp : p.Declared) (hnames : p.names.Nodup)
    (hparents : p.parents = .ok parents) {i : Nat} {v : Variable α} {role : Role}
    (hi : p.inputs[i]? = some (v, role)) :
    LeadsToCycle (Order.DependsOn parents) i ↔ LeadsToCycle p.References v.name := by
  let nameAt (i : Nat) : String := (p.inputs[i]?.map (·.1.name)).getD ""
  let indexOf (name : String) : Nat := (p.inputIndex? name).getD 0
  have hname : nameAt i = v.name := by simp only [nameAt, hi, Option.map_some, Option.getD_some]
  have hindex : indexOf v.name = i := by
    simp only [indexOf, (inputIndex?_eq_some_iff hnames).mpr ⟨v, role, hi, rfl⟩, Option.getD_some]
  constructor
  · intro h
    rw [← hname]
    refine h.lift nameAt fun a b hab => ?_
    obtain ⟨w, role', target, ha, htarget, hb⟩ := (dependsOn_iff hp hparents).mp hab
    obtain ⟨u, role'', hu, rfl⟩ := exists_input_of_inputIndex? hb
    simp only [nameAt, ha, hu, Option.map_some, Option.getD_some]
    exact ⟨_, List.mem_of_getElem? ha, rfl, htarget⟩
  · intro h
    rw [← hindex]
    refine h.lift indexOf fun a b hab => ?_
    obtain ⟨⟨w, role'⟩, hmem, rfl, htarget⟩ := hab
    obtain ⟨d, hd⟩ := List.mem_iff_getElem?.mp hmem
    obtain ⟨ps, _, hof⟩ := parents_getElem? hparents hd
    obtain ⟨k, hk⟩ := (mem_parentsOf_iff (hp _ hmem) hof).1 b htarget
    have hd' := (inputIndex?_eq_some_iff hnames).mpr ⟨w, role', hd, rfl⟩
    simp only [indexOf, hd', hk, Option.getD_some]
    exact (dependsOn_iff hp hparents).mpr ⟨w, role', b, hd, htarget, hk⟩

open Classical in
/-- The places that lead to a cycle have the names that do. -/
private theorem stuck_names (hp : p.Declared) (hnames : p.names.Nodup)
    (hparents : p.parents = .ok parents) :
    (((List.range parents.length).filter fun i =>
        LeadsToCycle (Order.DependsOn parents) i).filterMap fun i => p.inputs[i]?.map (·.1.name)) =
      (p.inputs.map (·.1.name)).filter fun name => LeadsToCycle p.References name := by
  have hall : p.inputs.map (·.1.name) =
      (List.range parents.length).filterMap fun i => p.inputs[i]?.map (·.1.name) := by
    have hsome : ∀ i ∈ List.range parents.length,
        (p.inputs[i]?.map (·.1.name)).isSome := by simp [length_parents hparents]
    refine List.ext_getElem? fun k => ?_
    rw [getElem?_filterMap_of_isSome hsome, List.getElem?_map, length_parents hparents]
    by_cases hk : k < p.inputs.length
    · rw [List.getElem?_range hk, Option.bind_some]
    · simp [hk]
  rw [hall, List.filter_filterMap, List.filterMap_filter]
  refine List.filterMap_congr fun i hi => ?_
  rw [List.mem_range, length_parents hparents] at hi
  obtain ⟨⟨v, role⟩, hget⟩ : ∃ input, p.inputs[i]? = some input := ⟨_, List.getElem?_eq_getElem hi⟩
  simp only [hget, Option.map_some, Option.filter_some, decide_eq_true_eq,
    leadsToCycle_iff hp hnames hparents hget]

/-- The inputs that a failed sort leaves over are those that lead to a cycle. -/
theorem inputOrder_makes (hp : p.Declared) (hnames : p.names.Nodup)
    (hparents : p.parents = .ok parents) : Makes (p.inputOrder parents) [p.CycleFault] := by
  have hlength := length_parents hparents
  have hclosed (i j : Nat) (hij : Order.DependsOn parents i j) : j < parents.length := by
    obtain ⟨_, _, _, _, _, hj⟩ := (dependsOn_iff hp hparents).mp hij
    exact hlength ▸ inputIndex?_lt hj
  unfold inputOrder
  refine Makes.of_check fun e => ?_
  rcases Order.topological_cases hclosed with ⟨⟨order, horder⟩, hnone⟩ | ⟨herror, i, hi, hcycle⟩
  · rw [horder]
    simp only [Except.mapError, reduceCtorEq, false_iff]
    rintro ⟨⟨name, hcycle⟩, _⟩
    have hleads : LeadsToCycle p.References name := ⟨name, .refl, hcycle⟩
    obtain ⟨i, v, role, hi, rfl⟩ := exists_input_of_leadsToCycle hleads
    refine hnone i ?_ ((leadsToCycle_iff hp hnames hparents hi).mpr hleads)
    exact hlength ▸ (List.getElem?_eq_some_iff.mp hi).1
  · rw [herror]
    have hget := List.getElem?_eq_getElem (hlength ▸ hi)
    obtain ⟨name, _, hname⟩ := (leadsToCycle_iff hp hnames hparents hget).mp hcycle
    have hexists : ∃ name, Relation.TransGen p.References name name := ⟨name, hname⟩
    simp only [Except.mapError, Except.error.injEq, CycleFault, hexists, true_and,
      stuck_names hp hnames hparents, eq_comm]

end Cycles

/-- The graph is assembled if its checks pass. -/
theorem assemble_makes (hp : p.Declared) : Makes p.assemble p.graphChecks := by
  unfold assemble graphChecks
  rw [List.append_assoc, List.append_assoc]
  refine (checkNames_makes p).bind fun _ hchecked => ?_
  have hnames := names_nodup hchecked
  refine (parents_makes hnames).bind fun parents hparents => ?_
  refine (inputOrder_makes hp hnames hparents).bind fun order horder => ?_
  have hlength := length_declarationOf hparents (inputOrder_eq_ok_iff.mp horder)
  rw [checkLiterals_eq_ok hp order, List.map_eq_flatMap]
  refine Makes.of_ok.bind fun _ _ => Makes.bind_ok (Makes.mapM fun o _ => ?_) fun observations =>
    ⟨_, rfl⟩
  exact bindObservation_makes hnames hlength.ge o

theorem compile_makes (hp : p.Declared) : Makes p.compile p.checks := by
  unfold compile checks
  refine (assemble_makes hp).mapError.bind fun m hm => ?_
  rw [Except.mapError_eq_ok_iff] at hm
  have hprobe := (probe_makes m).bind_ok
    (f := fun _ => (pure m : Except (Failure CompileError) (Model α))) fun _ => ⟨m, rfl⟩
  simpa only [hm, Except.ok.injEq, exists_eq_left'] using hprobe

/-- The references of a variable pass their checks if they name other inputs of fitting widths. -/
theorem referenceChecks_allPass_iff {v : Variable α} (hv : v.Declared) :
    AllPass (p.referenceChecks v) ↔ ∀ target, .reference target ∈ v.parameters →
      target ∈ p.inputs.map (·.1.name) ∧ target ≠ v.name ∧
        ∀ input ∈ p.inputs, input.1.name = target →
          input.1.width = 1 ∨ input.1.width = v.width := by
  unfold referenceChecks
  rw [allPass_map_iff]
  constructor
  · intro h target htarget
    obtain ⟨parameter, hmem⟩ := hv.mem_references_iff.mpr htarget
    have hnone := h (parameter, target) hmem
    refine ⟨?_, fun hself => hnone _ (.self hself), fun input hinput hname => ?_⟩
    · by_contra hunknown
      exact hnone _ (.unresolved hunknown)
    · by_contra hwide
      push Not at hwide
      exact hnone _ (.width hinput hname hwide.1 hwide.2)
  · rintro h ⟨parameter, target⟩ hmem e hfault
    obtain ⟨hdeclared, hother, hfits⟩ := h target (hv.mem_references_iff.mp ⟨parameter, hmem⟩)
    rcases hfault with hunknown | hself | ⟨hinput, hname, hone, hwidth⟩
    · exact hunknown hdeclared
    · exact hother hself
    · exact (hfits _ hinput hname).elim hone hwidth

/-- Nothing is wrong in a program if all its checks pass. -/
theorem acceptable_iff (hp : p.Declared) : p.Acceptable ↔ AllPass p.checks := by
  have houtputs : (∀ e, ¬ p.OutputsFault e) ↔ p.outputs ≠ [] := by simp [OutputsFault]
  have hnames : (∀ e, ¬ p.NamesFault e) ↔ p.names.Nodup := by
    simp only [NamesFault, nodup_iff_not_isFirstRepeated, not_exists, not_and]
    exact ⟨fun h name hname => h _ name hname rfl, fun h e name hname => absurd hname (h name)⟩
  have hcycle : (∀ e, ¬ p.CycleFault e) ↔ ∀ name, ¬ Relation.TransGen p.References name name := by
    simp only [CycleFault, not_and', forall_eq, not_exists]
  have htarget (o : Observation α) : (∀ e, ¬ p.TargetFault o.target e) ↔ p.HasTarget o.target := by
    simp [TargetFault]
  have hprobe : (∀ failure, ¬ ∃ m, p.assemble = .ok m ∧ ProbeFault m failure) ↔
      ∀ m, p.assemble = .ok m → PassesProbe m := by
    simp only [passesProbe_iff, not_exists, not_and]
    exact forall_comm.trans (forall_congr' fun m => forall_comm)
  rw [checks, allPass_append_iff, allPass_reported_iff, allPass_cons_iff, hprobe]
  simp only [graphChecks, allPass_append_iff, allPass_cons_iff, allPass_flatMap_iff, allPass_map_iff,
    houtputs, hnames, hcycle, htarget]
  constructor
  · intro h
    refine ⟨⟨⟨⟨⟨h.outputs_ne_nil, h.names_nodup, nofun⟩, fun input hinput => ?_⟩, h.acyclic, nofun⟩,
      fun _ => h.hasTarget⟩, fun _ => h.passesProbe, nofun⟩
    refine (referenceChecks_allPass_iff (hp _ hinput)).mpr fun target htarget => ?_
    refine ⟨h.declared ⟨_, hinput, rfl, htarget⟩, ?_, ?_⟩
    · rintro rfl
      exact h.not_self _ ⟨_, hinput, rfl, htarget⟩
    · rintro other hother rfl
      exact h.fits hinput hother htarget
  · rintro ⟨⟨⟨⟨⟨houtputs, hnames, _⟩, hreferences⟩, hacyclic, _⟩, htargets⟩, hprobe, _⟩
    have hreferences {input : Variable α × Role} (hinput : input ∈ p.inputs) :=
      (referenceChecks_allPass_iff (hp _ hinput)).mp (hreferences input hinput)
    refine ⟨houtputs, hnames, ?_, ?_, ?_, hacyclic, htargets _, hprobe _⟩
    · rintro _ target ⟨input, hinput, _, htarget⟩
      exact (hreferences hinput target htarget).1
    · rintro _ ⟨input, hinput, rfl, htarget⟩
      exact (hreferences hinput _ htarget).2.1 rfl
    · intro input target hinput htarget hparameter
      exact (hreferences hinput _ hparameter).2.2 target htarget rfl

theorem exists_compile_iff (hp : p.Declared) : (∃ m, p.compile = .ok m) ↔ p.Acceptable :=
  ((compile_makes hp).allPass_iff.symm).trans (acceptable_iff hp).symm

/-- A draw breaks down only once the graph has passed its checks. -/
theorem firstFault_breakdown_iff (hp : p.Declared) {b : Breakdown} :
    FirstFault p.checks (.breakdown b) ↔ p.BreaksDown b := by
  have hgraph : AllPass p.graphChecks ↔ ∃ m, p.assemble = .ok m := (assemble_makes hp).allPass_iff
  rw [checks, firstFault_append_iff, or_iff_right not_firstFault_reported, allPass_reported_iff,
    hgraph, firstFault_singleton_iff]
  constructor
  · rintro ⟨-, m, hm, hfault⟩
    cases hfault with
    | breakdown hlt hfailed hdraw => exact ⟨m, _, hm, hlt, hfailed, hdraw⟩
  · rintro ⟨m, k, hm, hlt, hfailed, hdraw⟩
    exact ⟨⟨m, hm⟩, m, hm, .breakdown hlt hfailed hdraw⟩

/-- A program compiles exactly if nothing is wrong in it. Else it is refused with the error of the first
check that fails, unless a prior draw breaks down before one succeeds: then the compilation breaks down
as the draw does. -/
theorem compile_decides (hp : p.Declared) :
    ((∃ m, p.compile = .ok m) ↔ p.Acceptable) ∧
      (∀ e, p.compile = .error (.error e) ↔ FirstFault p.checks (.error e)) ∧
      ∀ b, p.compile = .error (.breakdown b) ↔ p.BreaksDown b :=
  ⟨exists_compile_iff hp, fun e => compile_makes hp (.error e),
    fun b => (compile_makes hp (.breakdown b)).trans (firstFault_breakdown_iff hp)⟩

/-- Two inputs that reference each other, one that references them, and a coin. -/
noncomputable def loop : Program Exact where
  name := "loop"
  inputs := [(⟨"first", .constant, [.reference "second"], .scalar, false⟩, .known),
    (⟨"coin", .bernoulli, [.value (.real 0.5)], .scalar, false⟩, .secret),
    (⟨"second", .constant, [.reference "first"], .scalar, false⟩, .known),
    (⟨"below", .constant, [.reference "second"], .scalar, false⟩, .known)]
  outputs := [⟨"out", true, 1⟩]
  transformation arguments := .ok arguments
  observations := []

theorem loop_declared : loop.Declared := by
  have hcoin := Exact.declare_bernoulli "coin" (p := 0.5) (by norm_num) (by norm_num)
  have hcopy (name target : String) : Variable.declare (α := Exact) name .constant
      [.reference target] = .ok ⟨name, .constant, [.reference target], .scalar, false⟩ := rfl
  intro input hinput
  simp only [loop, List.mem_cons, List.not_mem_nil, or_false] at hinput
  rcases hinput with rfl | rfl | rfl | rfl
  · exact .declare (hcopy _ _)
  · exact .declare hcoin
  · exact .declare (hcopy _ _)
  · exact .declare (hcopy _ _)

theorem loop_compile : loop.compile = .error (.error (.cycle ["first", "second", "below"])) := rfl

/-- The loop is refused for its cycle, which no other check comes before. -/
theorem loop_refused : loop.Declared ∧ ¬ loop.Acceptable ∧
    FirstFault loop.checks (.error (.cycle ["first", "second", "below"])) ∧
    ∀ b, ¬ loop.BreaksDown b := by
  obtain ⟨haccepted, hreported, hbroken⟩ := compile_decides loop_declared
  refine ⟨loop_declared, ?_, (hreported _).mp loop_compile, fun b => ?_⟩
  · rw [← haccepted, loop_compile]
    simp
  · rw [← hbroken, loop_compile]
    simp

/-- A program of one input, which is its output too. -/
def single (v : Variable Float) : Program Float where
  name := "single"
  inputs := [(v, .secret)]
  outputs := [⟨"out", false, 1⟩]
  transformation arguments := .ok arguments
  observations := []

/-- Where no draw can be made of an input, the compilation breaks down as its sampler does. -/
theorem single_compile {v : Variable Float} {d : Distribution Float} {b : Breakdown}
    (hassemble : (single v).assemble = .ok ((single v).model [[]] [0] [])) (hwidth : v.width = 1)
    (hdistribution : v.distribution? = some (.ok d))
    (hsampler : Sampler.ofDistribution d = .error (.breakdown b)) :
    (single v).compile = .error (.breakdown b) := by
  obtain ⟨node, hnodes, hone, hliteral⟩ : ∃ node, ((single v).model [[]] [0] []).nodes.toList =
      [node] ∧ node.width = 1 ∧ node.literal = some d :=
    ⟨_, rfl, hwidth, congrArg (·.bind (·.toOption)) hdistribution⟩
  have helement : Model.elementSampler node 0 #[] = .error (.breakdown b) := by
    unfold Model.elementSampler Model.resolveNode
    rw [hliteral]
    change (Sampler.ofDistribution d).mapError _ = _
    rw [hsampler]
    rfl
  refine compile_of_breakdown hassemble ?_
  unfold Model.samplePrior
  rw [hnodes, Model.drawNodes, hone, List.range_one, Model.drawElements, helement]
  exact Random.Always.of_pure rfl

/-- A number from a range that is wider than any double. -/
def wideRange : Distribution Float := .uniform (-1e308) 1e308

/-- The trials up to a success that is too rare to count beside 1. -/
def rareSuccess : Distribution Float := .geometric 5.551115123125783e-17

theorem build_wideRange :
    Distribution.build wideRange.family wideRange.parameterValues none = .ok wideRange := by
  have hbuild {lower upper : Float} (hlower : Scalar.isFinite lower = true)
      (hupper : Scalar.isFinite upper = true) (horder : ¬ upper ≤ lower) :
      Distribution.build .uniform [lower, upper] none = .ok (.uniform lower upper) := by
    refine Distribution.build_eq_ok_iff.mpr ⟨rfl, fun _ => ?_, if_neg horder⟩
    simp [Family.signature, checkLiteral, hlower, hupper, pure, Except.pure]
  exact hbuild (by decide +kernel) (by decide +kernel) (by decide +kernel)

theorem build_rareSuccess :
    Distribution.build rareSuccess.family rareSuccess.parameterValues none = .ok rareSuccess := by
  have hbuild {p : Float} (hfinite : Scalar.isFinite p = true) (hpos : 0 < p) (hle : p ≤ 1) :
      Distribution.build .geometric [p] none = .ok (.geometric p) := by
    refine Distribution.build_eq_ok_iff.mpr ⟨rfl, fun _ => ?_, rfl⟩
    simp [Family.signature, checkLiteral, hfinite, hpos, hle, pure, Except.pure]
  exact hbuild (by decide +kernel) (by decide +kernel) (by decide +kernel)

theorem ofDistribution_wideRange :
    Sampler.ofDistribution wideRange = .error (.breakdown .rangeOverflow) := by
  have hwide {lower upper : Float} (horder : lower < upper)
      (hwidth : Scalar.isFinite (upper - lower) = false) :
      Sampler.ofDistribution (.uniform lower upper) = .error (.breakdown .rangeOverflow) := by
    simp only [Sampler.ofDistribution, Random.FloatRange.halfOpen_of_overflow horder hwidth]
    rfl
  exact hwide (by decide +kernel) (by decide +kernel)

theorem ofDistribution_rareSuccess :
    Sampler.ofDistribution rareSuccess = .error (.breakdown .endless) := by
  have hrare {p : Float} (hsmall : ¬ Scalar.ofFloat (2 / 3) ≤ p) (hfailure : 1 - p = 1) :
      Sampler.ofDistribution (.geometric p) = .error (.breakdown .endless) := by
    have hendless : ¬ Random.GeometricBlocks.Settles p := by
      rintro ⟨n, hsettled⟩
      rw [hfailure] at hsettled
      obtain ⟨hfinite, hone⟩ := Double.square_of_one (x := 1) rfl Double.value_one
      exact Double.not_isSettled_of_one hfinite hone hsettled
    simp only [Sampler.ofDistribution, Random.GeometricBlocks.ofSuccess_eq_endless hsmall hendless]
    rfl
  exact hrare (by decide +kernel) (by decide +kernel)

/-- A program may be neither accepted nor refused, with nothing wrong in its declarations: no draw can be
made of the range, and none is ever ready for the success. -/
theorem single_not_refused :
    ∃ wide rare : Program Float, wide.Declared ∧ rare.Declared ∧
      (¬ wide.Acceptable ∧ ∀ e, wide.compile ≠ .error (.error e)) ∧
      (¬ rare.Acceptable ∧ ∀ e, rare.compile ≠ .error (.error e)) ∧
      wide.compile = .error (.breakdown .rangeOverflow) ∧
      rare.compile = .error (.breakdown .endless) := by
  have hdeclared {d : Distribution Float}
      (hbuild : Distribution.build d.family d.parameterValues none = .ok d)
      (hf : d.family ≠ .categorical) :
      (single ⟨"x", d.family, d.parameterValues.map .value, .scalar, false⟩).Declared := by
    intro input hinput
    cases List.mem_singleton.mp hinput
    exact .declare (Variable.declare_of_build hbuild hf "x")
  have hbroken {p : Program Float} {b : Breakdown} (hp : p.Declared)
      (h : p.compile = .error (.breakdown b)) :
      ¬ p.Acceptable ∧ ∀ e, p.compile ≠ .error (.error e) := by
    rw [← exists_compile_iff hp, h]
    simp
  have hwide := hdeclared (d := wideRange) build_wideRange (by decide)
  have hrare := hdeclared (d := rareSuccess) build_rareSuccess (by decide)
  have hwideCompile := single_compile
    (assemble_eq rfl rfl rfl (checkLiterals_eq_ok hwide [0])) rfl
    (Variable.distribution?_of_build (d := wideRange) build_wideRange "x" .scalar false)
    ofDistribution_wideRange
  have hrareCompile := single_compile
    (assemble_eq rfl rfl rfl (checkLiterals_eq_ok hrare [0])) rfl
    (Variable.distribution?_of_build (d := rareSuccess) build_rareSuccess "x" .scalar false)
    ofDistribution_rareSuccess
  exact ⟨_, _, hwide, hrare, hbroken hwide hwideCompile, hbroken hrare hrareCompile, hwideCompile,
    hrareCompile⟩

end InfoFlow.Program
