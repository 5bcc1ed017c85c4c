import InfoFlow.Inference.Run
import InfoFlow.Proofs.Model.State
import InfoFlow.Proofs.Model.Tables
import InfoFlow.Proofs.Scalar.Indices

namespace InfoFlow

variable {α : Type}

namespace Checked

/-- What is at a position, which has to be there. The functions of `Checked` look up positions of a
model by it alone, and take no defaults. -/
def entry {β : Type} : Option β → Except OutOfBounds β
  | some b => .ok b
  | none => .error .outOfBounds

variable [Scalar α]

/-- The value of a parameter for one element. -/
def parameterValue (state : State α) (element : Nat) : Binding α → Except OutOfBounds α
  | .value x => return x
  | .weights _ => return 0
  | .node j => do
    let parent ← entry state[j]?
    if parent.size = 1 then entry parent[0]? else entry parent[element]?

/-- The distribution of an element of a node, given the values of its parents. -/
def resolveNode (node : Node α) (element : Nat) (state : State α) :
    Except OutOfBounds (Except InvalidParameter (Distribution α)) :=
  match node.literal with
  | some d => return .ok d
  | none => do
    let values ← node.bindings.mapM (parameterValue state element)
    let weights := node.bindings.reverse.findSome? Binding.weights?
    return (Distribution.build node.family values weights).mapError (·.of node.name node.family)

def resolve (m : Model α) (i element : Nat) (state : State α) :
    Except OutOfBounds (Except InvalidParameter (Distribution α)) := do
  resolveNode (← entry m.nodes[i]?) element state

/-- The log-density; a categorical distribution looks up the weight of a category. -/
def lnDensity (d : Distribution α) (x : α) : Except OutOfBounds α :=
  match d with
  | .categorical weights =>
    if Scalar.isNaN x || !(Distribution.categorical weights).support.contains x then
      return -Scalar.infinity
    else return Scalar.log (← entry weights[(Scalar.toUInt64 x).toNat]?)
  | d => return d.lnDensity x

/-- Log prior density of one element. -/
def lnPriorElement (m : Model α) (i element : Nat) (state : State α) : Except OutOfBounds α := do
  match ← resolve m i element state with
  | .ok d => lnDensity d (← entry (← entry state[i]?)[element]?)
  | .error _ => return -Scalar.infinity

section Draws

variable {σ : Type} [RandomWords σ]

/-- The sampler of an element of node `i`, whose parents have been drawn. -/
def elementSampler (m : Model α) (i : Nat) (node : Node α) (element : Nat) (state : State α) :
    Except OutOfBounds (Except (Failure InvalidParameter) (Sampler α)) := do
  let resolved ← resolve m i element state
  return do
    let d ← resolved.mapError .error
    (Sampler.ofDistribution d).mapError (.map (·.of node.name node.family))

/-- Draws elements of node `i` one after the other. -/
def drawElements (m : Model α) (i : Nat) (node : Node α) (state : State α) :
    List Nat → ExceptT OutOfBounds (Random σ) (Except (Failure InvalidParameter) (List α))
  | [] => return .ok []
  | e :: rest => do
    match ← (liftM (elementSampler m i node e state) : ExceptT OutOfBounds (Random σ) _) with
    | .error failure => return .error failure
    | .ok sampler =>
      match ← (sampler.draw.run : Random σ (Except Breakdown α)) with
      | .error b => return .error (.breakdown b)
      | .ok x =>
        match ← drawElements m i node state rest with
        | .error failure => return .error failure
        | .ok xs => return .ok (x :: xs)

/-- Draws nodes one after the other, each given the ones before it. -/
def drawNodes (m : Model α) (state : State α) :
    List (Node α) → ExceptT OutOfBounds (Random σ) (Except (Failure InvalidParameter) (State α))
  | [] => return .ok state
  | node :: rest => do
    match ← drawElements m state.size node state (List.range node.width) with
    | .error failure => return .error failure
    | .ok values => drawNodes m (state.push values.toArray) rest

/-- An ancestral draw of all nodes. -/
def samplePrior (m : Model α) :
    ExceptT OutOfBounds (Random σ) (Except (Failure InvalidParameter) (State α)) :=
  drawNodes m #[] m.nodes.toList

end Draws

/-- The values that the transformation gets. -/
def argumentValues (m : Model α) (state : State α) : Except OutOfBounds (List (Value α)) :=
  m.arguments.mapM fun i => do
    let node ← entry m.nodes[i]?
    let values ← entry state[i]?
    if node.isScalar then return .scalar (← entry values[0]?) else return .vector values.toList

/-- The elements of all outputs at a state. -/
def evaluate (m : Model α) (state : State α) :
    Except OutOfBounds (Except EvaluationError (List (List α))) := do
  match m.transformation (← argumentValues m state) with
  | .error reason => return .error (.transformation reason)
  | .ok values =>
    if values.length ≠ m.outputs.length then
      return .error (.outputCount m.outputs.length values.length)
    else return (m.outputs.zip values).mapM fun (output, value) => Model.checkOutput output value

/-- One element of some values, or all of them. -/
def select (values : List α) : Option Nat → Except OutOfBounds (List α)
  | some e => return [← entry values[e]?]
  | none => return values

/-- The elements that an observation constrains. -/
def siteValues (site : Site) (state : State α) (outputs : List (List α)) :
    Except OutOfBounds (List α) :=
  match site with
  | .node i element => do select (← entry state[i]?).toList element
  | .output o element => do select (← entry outputs[o]?) element

/-- Log-likelihood of all observations. -/
def lnLikelihood (m : Model α) (state : State α) (outputs : List (List α)) :
    Except OutOfBounds α := do
  let terms ← m.observations.mapM fun o => do
    return (← siteValues o.site state outputs).flatMap fun x =>
      o.constraints.map fun (relation, bound) =>
        constraintLnLikelihood x relation bound o.precision o.isDiscrete
  return Scalar.sum terms.flatten

/-- The row of a matrix that is written with some values, one for each column. -/
def assign (info : TracedVariable) (values : List α) : Except OutOfBounds (List α) :=
  if values.length = info.width then return values else throw .outOfBounds

/-- Row `r` of matrices with `capacity` rows. -/
def row (m : Model α) (capacity r : Nat) (draw : Draw α) : Except OutOfBounds (List (List α)) := do
  if capacity ≤ r then throw .outOfBounds
  let nodes ← m.declaration.mapM fun i => do return (← entry draw.state[i]?).toList
  let outputs ← (List.range m.outputs.length).mapM fun o => entry draw.outputs[o]?
  (m.tracedVariables.zip (nodes ++ outputs)).mapM fun (info, values) => assign info values

end Checked

namespace Model

/-- The vectors of a state are as wide as their nodes. It may end before the last node, as a state does
that is being drawn. -/
def FitsSoFar (m : Model α) (s : State α) : Prop :=
  ∀ (k : Nat) (values : Array α), s[k]? = some values →
    ∃ node, m.nodes[k]? = some node ∧ values.size = node.width

variable {m : Model α} {s : State α}

theorem Fits.soFar (h : m.Fits s) : m.FitsSoFar s := by
  intro k values hk
  have hwidth := h.getElem?_eq k
  rw [hk, Option.map_some, eq_comm, Option.map_eq_some_iff] at hwidth
  obtain ⟨node, hnode, hsize⟩ := hwidth
  exact ⟨node, hnode, hsize.symm⟩

theorem Fits.exists_values (h : m.Fits s) {i : Nat} {node : Node α} (hi : m.nodes[i]? = some node) :
    ∃ values : Array α, s[i]? = some values ∧ s.getD i #[] = values ∧
      values.size = node.width := by
  have hlt : i < s.size := h.size_eq ▸ (Array.getElem?_eq_some_iff.mp hi).1
  have hvalues := Array.getElem?_eq_getElem hlt
  have hgetD : s.getD i #[] = s[i] := by
    rw [Array.getD_eq_getD_getElem?, hvalues]
    rfl
  exact ⟨s[i], hvalues, hgetD, hgetD ▸ h.size_getD hi⟩

theorem resolve_of_node [Scalar α] {i e : Nat} {node : Node α} (hi : m.nodes[i]? = some node) :
    m.resolve i e s = resolveNode node e s := by
  unfold resolve
  rw [hi]

/-- The model with another transformation. -/
def withTransformation (m : Model α) (f : Transformation α) : Model α := { m with transformation := f }

/-- The node that a parameter is bound to comes before and has one element, or one for each. -/
theorem Represents.parent {p : Program α} (h : m.Represents p) {i j : Nat} {node : Node α}
    (hi : m.nodes[i]? = some node) (hj : .node j ∈ node.bindings) :
    ∃ parent, m.nodes[j]? = some parent ∧ j < i ∧
      (parent.width = 1 ∨ parent.width = node.width) := by
  obtain ⟨_, _, _, _, hbinds⟩ := h.node_declares hi
  obtain ⟨parameter, _, hbound⟩ := hbinds.exists_of_mem_right hj
  cases hbound with
  | reference hparent hlt hwidth => exact ⟨_, hparent, hlt, hwidth⟩

end Model

namespace Checked

variable {m : Model α} {p : Program α} {s : State α} {i e : Nat} {node : Node α}

theorem select_some {values : List α} (he : e < values.length) :
    select values (some e) = .ok values[e]?.toList := by
  simp only [select, List.getElem?_eq_getElem he]
  rfl

theorem siteValues_eq {site : Site} (hsite : m.HasSite site) (hs : m.Fits s)
    {outputs : List (List α)} (houtputs : outputs.map List.length = m.outputs.map Output.width) :
    siteValues site s outputs = .ok (Model.siteValues site s outputs) := by
  cases site with
  | node i element =>
    obtain ⟨node, hnode, helement⟩ := hsite
    obtain ⟨values, hvalues, hgetD, hwidth⟩ := hs.exists_values hnode
    simp only [siteValues, Model.siteValues, hvalues, hgetD]
    cases element with
    | none => rfl
    | some e => exact select_some (by simpa [hwidth] using helement e rfl)
  | output o element =>
    obtain ⟨output, houtput, helement⟩ := hsite
    have hwidth := congrArg (·[o]?) houtputs
    simp only [List.getElem?_map, houtput, Option.map_some, Option.map_eq_some_iff] at hwidth
    obtain ⟨values, hvalues, hwidth⟩ := hwidth
    simp only [siteValues, Model.siteValues, hvalues, List.getD_eq_getElem?_getD,
      Option.getD_some]
    cases element with
    | none => rfl
    | some e => exact select_some (hwidth ▸ helement e rfl)

/-- Every variable that is traced has a row of its own width in the values of a draw. -/
theorem map_length_tracedValues (hm : m.WellFormed) {draw : Draw α} (hs : m.Fits draw.state)
    (houtputs : draw.outputs.map List.length = m.outputs.map Output.width) :
    (m.tracedValues draw).map List.length = m.tracedVariables.map TracedVariable.width := by
  have hnodes : m.declaration.map (fun i => (draw.state.getD i #[]).toList.length) =
      m.declaration.filterMap fun i => m.nodes[i]?.map Node.width := by
    rw [← List.filterMap_eq_map]
    refine List.filterMap_congr fun i hi => ?_
    have hnode := Array.getElem?_eq_getElem (hm.declaration_lt_size hi)
    rw [hnode]
    exact congrArg some (hs.size_getD hnode)
  have hoptions : (List.range m.outputs.length).map (fun o => (draw.outputs.getD o []).length) =
      m.outputs.map Output.width := by
    rw [← houtputs]
    have hlength : m.outputs.length = draw.outputs.length := by
      simpa using (congrArg List.length houtputs).symm
    refine List.ext_getElem (by simpa using hlength) fun o ho ho' => ?_
    rw [List.length_map] at ho'
    simp only [List.getElem_map, List.getElem_range, List.getD_eq_getElem?_getD,
      List.getElem?_eq_getElem ho', Option.getD_some]
  unfold Model.tracedValues Model.tracedVariables
  simp only [List.map_append, List.map_map, List.map_filterMap, Option.map_map]
  exact congrArg₂ (· ++ ·) hnodes hoptions

theorem row_eq (hm : m.WellFormed) {draw : Draw α} (hs : m.Fits draw.state)
    (houtputs : draw.outputs.map List.length = m.outputs.map Output.width) {capacity r : Nat}
    (hr : r < capacity) : row m capacity r draw = .ok (m.tracedValues draw) := by
  have hnodes : (m.declaration.mapM fun i => do return (← entry draw.state[i]?).toList) =
      .ok (m.declaration.map fun i => (draw.state.getD i #[]).toList) := by
    refine Except.mapM_eq_ok_iff.mpr ?_
    rw [List.forall₂_map_right_iff, List.forall₂_same]
    intro i hi
    obtain ⟨values, hvalues, hgetD, _⟩ :=
      hs.exists_values (Array.getElem?_eq_getElem (hm.declaration_lt_size hi))
    rw [hvalues, hgetD]
    rfl
  have hoptions : ((List.range m.outputs.length).mapM fun o => entry draw.outputs[o]?) =
      .ok ((List.range m.outputs.length).map fun o => draw.outputs.getD o []) := by
    refine Except.mapM_eq_ok_iff.mpr ?_
    rw [List.forall₂_map_right_iff, List.forall₂_same]
    intro o ho
    have hlt : o < draw.outputs.length := by
      have hlength := congrArg List.length houtputs
      simp only [List.length_map] at hlength
      exact hlength ▸ List.mem_range.mp ho
    rw [List.getD_eq_getElem?_getD, List.getElem?_eq_getElem hlt]
    rfl
  have hwidths := map_length_tracedValues hm hs houtputs
  have hall : List.Forall₂ (fun info (values : List α) => values.length = info.width)
      m.tracedVariables (m.tracedValues draw) := by
    rw [← List.forall₂_eq_eq_eq, List.forall₂_map_left_iff, List.forall₂_map_right_iff] at hwidths
    exact hwidths.flip
  have hrows : ((m.tracedVariables.zip (m.tracedValues draw)).mapM
      fun (info, values) => assign info values) =
      .ok ((m.tracedVariables.zip (m.tracedValues draw)).map Prod.snd) := by
    refine Except.mapM_eq_ok_iff.mpr ?_
    rw [List.forall₂_map_right_iff, List.forall₂_same]
    exact fun _ hmem => if_pos (List.forall₂_zip hall hmem)
  rw [List.map_snd_zip hall.length_eq.ge] at hrows
  unfold row
  rw [if_neg (Nat.not_le.mpr hr), hnodes, hoptions]
  exact hrows

variable [Scalar α]

/-- A parameter that is bound to a node has a value for each element once that node is drawn. -/
theorem parameterValue_eq (hrep : m.Represents p) (hi : m.nodes[i]? = some node) (he : e < node.width)
    (hs : m.FitsSoFar s) (hsize : i ≤ s.size) {b : Binding α} (hb : b ∈ node.bindings) :
    parameterValue s e b = .ok (b.resolve s e) := by
  cases b with
  | value x => rfl
  | weights ws => rfl
  | node j =>
    obtain ⟨parent, hparent, hlt, hwidth⟩ := hrep.parent hi hb
    have hj := Array.getElem?_eq_getElem (Nat.lt_of_lt_of_le hlt hsize)
    obtain ⟨found, hfound, hvalues⟩ := hs j _ hj
    rw [hparent] at hfound
    cases hfound
    unfold parameterValue Binding.resolve
    simp only [hj, Array.getD_eq_getD_getElem?, Option.getD_some]
    change (if s[j].size = 1 then entry s[j][0]? else entry s[j][e]?) = _
    split
    · rw [Array.getElem?_eq_getElem (by omega)]
      rfl
    · rw [Array.getElem?_eq_getElem (by omega)]
      rfl

theorem resolveNode_eq (hrep : m.Represents p) (hi : m.nodes[i]? = some node) (he : e < node.width)
    (hs : m.FitsSoFar s) (hsize : i ≤ s.size) :
    resolveNode node e s = .ok (Model.resolveNode node e s) := by
  unfold resolveNode Model.resolveNode
  cases node.literal with
  | some d => rfl
  | none =>
    have hvalues : node.bindings.mapM (parameterValue s e) =
        .ok (node.bindings.map (Binding.resolve s e)) := by
      refine Except.mapM_eq_ok_iff.mpr ?_
      rw [List.forall₂_map_right_iff, List.forall₂_same]
      exact fun b hb => parameterValue_eq hrep hi he hs hsize hb
    simp only [hvalues]
    rfl

theorem resolve_eq (hrep : m.Represents p) (hi : m.nodes[i]? = some node) (he : e < node.width)
    (hs : m.FitsSoFar s) (hsize : i ≤ s.size) : resolve m i e s = .ok (m.resolve i e s) := by
  unfold resolve Model.resolve
  rw [hi]
  exact resolveNode_eq hrep hi he hs hsize

section Draws

variable {σ : Type} [RandomWords σ]

/-- Where every look-up is in bounds, drawing takes the same words and answers the same. -/
theorem drawElements_eq (elements : List Nat)
    (h : ∀ e ∈ elements, resolve m i e s = .ok (Model.resolveNode node e s)) :
    (drawElements m i node s elements : ExceptT OutOfBounds (Random σ) _) =
      ExceptT.lift (Model.drawElements node s elements) := by
  induction elements with
  | nil => rfl
  | cons e rest ih =>
    have hsampler : elementSampler m i node e s = .ok (Model.elementSampler node e s) := by
      unfold elementSampler Model.elementSampler
      rw [h e List.mem_cons_self]
      rfl
    unfold drawElements Model.drawElements
    rw [hsampler, ih fun e he => h e (List.mem_cons_of_mem _ he)]
    cases Model.elementSampler node e s with
    | error failure => rfl
    | ok sampler =>
      have hfound : (liftM (.ok (.ok sampler) :
          Except OutOfBounds (Except (Failure InvalidParameter) _)) :
            ExceptT OutOfBounds (Random σ) _) = pure (.ok sampler) := rfl
      rw [hfound, pure_bind, ExceptT.lift_bind]
      refine bind_congr fun drawn => ?_
      cases drawn with
      | error b => rfl
      | ok x =>
        rw [ExceptT.lift_bind]
        refine bind_congr fun rest => ?_
        cases rest <;> rfl

theorem drawNodes_eq (hrep : m.Represents p) (nodes : List (Node α)) (s : State α)
    (hnodes : m.nodes.toList.drop s.size = nodes) (hs : m.FitsSoFar s) :
    (drawNodes m s nodes : ExceptT OutOfBounds (Random σ) _) =
      ExceptT.lift (Model.drawNodes s nodes) := by
  induction nodes generalizing s with
  | nil => rfl
  | cons node rest ih =>
    have hnode : m.nodes[s.size]? = some node := by
      rw [← Array.getElem?_toList, ← List.head?_drop, hnodes]
      rfl
    have helements := drawElements_eq (σ := σ) (List.range node.width) fun e he => by
      rw [resolve_eq hrep hnode (List.mem_range.mp he) hs le_rfl, Model.resolve_of_node hnode]
    rw [drawNodes, Model.drawNodes, helements]
    refine ExceptT.ext ?_
    rw [ExceptT.run_bind_lift, ExceptT.run_lift, map_bind]
    refine Random.Always.bind_congr (Model.drawElements_length node s _) fun drawn hdrawn => ?_
    cases drawn with
    | error failure => rfl
    | ok values =>
      have hwidth : values.length = node.width := by simpa using hdrawn values rfl
      have hnext := ih (s.push values.toArray) (by
        rw [Array.size_push, ← List.drop_drop, hnodes]
        rfl) ?_
      · exact congrArg ExceptT.run hnext
      · intro k found hk
        rw [Array.getElem?_push] at hk
        split at hk
        · rename_i hlast
          cases hk
          exact ⟨node, hlast ▸ hnode, by simpa using hwidth⟩
        · exact hs k found hk

/-- An ancestral draw looks up nothing but what it has drawn. -/
theorem samplePrior_eq (hrep : m.Represents p) :
    (samplePrior m : ExceptT OutOfBounds (Random σ) _) = ExceptT.lift m.samplePrior :=
  drawNodes_eq hrep _ #[] rfl fun k values hk => by simp at hk

end Draws

/-- A category in the support has a weight. -/
theorem lnDensity_eq [LawfulIndices α] {d : Distribution α}
    (hd : ∀ weights, d = .categorical weights → 0 < weights.size ∧ weights.size ≤ 2 ^ 53) (x : α) :
    lnDensity d x = .ok (d.lnDensity x) := by
  unfold lnDensity
  split
  · rename_i weights
    obtain ⟨hpos, hlimit⟩ := hd weights rfl
    unfold Distribution.lnDensity
    split
    · rfl
    · rename_i hinside
      simp only [Bool.or_eq_true, Bool.not_eq_true', not_or, Bool.not_eq_false,
        Support.contains, Bool.and_eq_true, decide_eq_true_eq] at hinside
      obtain ⟨_, ⟨hnonneg, hle⟩, _⟩ := hinside
      have hindex := LawfulIndices.toNat_toUInt64_lt hpos hlimit hnonneg hle
      simp only [Array.getElem?_eq_getElem hindex, Array.getD_eq_getD_getElem?, Option.getD_some]
      rfl
  · rfl

/-- The weights of the distribution of an element, if it has some, are there and can be indexed. -/
def Indexable (r : Except InvalidParameter (Distribution α)) : Prop :=
  ∀ weights, r = .ok (.categorical weights) → 0 < weights.size ∧ weights.size ≤ 2 ^ 53

theorem lnPriorElement_eq [LawfulIndices α] (hrep : m.Represents p)
    (hi : m.nodes[i]? = some node) (he : e < node.width) (hs : m.Fits s)
    (hweights : Indexable (m.resolve i e s)) :
    lnPriorElement m i e s = .ok (m.lnPriorElement i e s) := by
  obtain ⟨values, hvalues, hgetD, hwidth⟩ := hs.exists_values hi
  have hinside : e < values.size := hwidth ▸ he
  have helement := Array.getElem?_eq_getElem hinside
  have hvalue : s.value i e = values[e] := by
    rw [State.value, hgetD, Array.getD_eq_getD_getElem?, helement]
    rfl
  have hlt : i < s.size := (Array.getElem?_eq_some_iff.mp hvalues).1
  unfold lnPriorElement Model.lnPriorElement
  rw [resolve_eq hrep hi he hs.soFar hlt.le, hvalue, hvalues]
  cases hresolve : m.resolve i e s with
  | error fault => rfl
  | ok d =>
    change (entry values[e]? >>= fun x => lnDensity d x) = _
    rw [helement]
    exact lnDensity_eq (fun weights hd => hweights weights (hd ▸ hresolve)) _

theorem argumentValues_eq (hrep : m.Represents p) (hm : m.WellFormed) (hs : m.Fits s) :
    argumentValues m s = .ok (m.argumentValues s) := by
  refine Except.mapM_eq_ok_iff.mpr ?_
  unfold Model.argumentValues
  rw [List.forall₂_map_right_iff, List.forall₂_same]
  intro i hi
  obtain ⟨node, hnode, _⟩ := hm.mem_arguments_iff.mp hi
  obtain ⟨values, hvalues, hgetD, hwidth⟩ := hs.exists_values hnode
  rw [hnode, hvalues, State.value, hgetD, Option.map_some, Option.getD_some]
  change (if node.isScalar = true then Value.scalar <$> entry values[0]?
    else .ok (.vector values.toList)) = _
  split
  · rename_i hscalar
    obtain ⟨v, role, _, hdeclares, _⟩ := hrep.node_declares hnode
    have hone : 0 < values.size := by
      rw [hwidth, hdeclares.width_eq, Variable.width, hdeclares.isScalar_iff.mp hscalar]
      exact Nat.zero_lt_one
    rw [Array.getD_eq_getD_getElem?, Array.getElem?_eq_getElem hone]
    rfl
  · rfl

/-- Evaluation looks up arguments, and nothing in what the transformation makes of them. -/
theorem evaluate_eq (hrep : m.Represents p) (hm : m.WellFormed) (hs : m.Fits s)
    (f : Transformation α) :
    evaluate (m.withTransformation f) s = .ok ((m.withTransformation f).evaluate s) := by
  have harguments : argumentValues (m.withTransformation f) s =
      .ok ((m.withTransformation f).argumentValues s) := argumentValues_eq (m := m) hrep hm hs
  unfold evaluate Model.evaluate
  rw [harguments]
  simp only [bind, Except.bind]
  cases (m.withTransformation f).transformation ((m.withTransformation f).argumentValues s) with
  | error reason => rfl
  | ok values =>
    simp only
    split <;> rfl

theorem lnLikelihood_eq (hrep : m.Represents p) (hs : m.Fits s) {outputs : List (List α)}
    (houtputs : outputs.map List.length = m.outputs.map Output.width) :
    lnLikelihood m s outputs = .ok (m.lnLikelihood s outputs) := by
  have hterms : (m.observations.mapM fun o => do
      return (← siteValues o.site s outputs).flatMap fun x =>
        o.constraints.map fun (relation, bound) =>
          constraintLnLikelihood x relation bound o.precision o.isDiscrete) =
      .ok (m.observations.map fun o => Model.observationTerms o s outputs) := by
    refine Except.mapM_eq_ok_iff.mpr ?_
    rw [List.forall₂_map_right_iff, List.forall₂_same]
    intro o ho
    rw [siteValues_eq (hrep.hasSite ho) hs houtputs]
    rfl
  unfold lnLikelihood Model.lnLikelihood
  rw [hterms, List.flatMap_def]
  rfl

end Checked

end InfoFlow
