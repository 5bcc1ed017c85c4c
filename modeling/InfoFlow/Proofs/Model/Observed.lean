import InfoFlow.Proofs.Model.Tables

namespace InfoFlow

variable {α : Type}

/-- The node as it is when no observation constrains it. -/
def Node.unobserved (node : Node α) : Node α := { node with isObserved := false }

/-- The program with one more observation. -/
def Program.withObservation (p : Program α) (o : Observation α) : Program α :=
  { p with observations := p.observations ++ [o] }

variable [Scalar α]

namespace Model

section Draws

variable {σ : Type} [RandomWords σ]

theorem drawElements_unobserved (node : Node α) (s : State α) (elements : List Nat) :
    (drawElements node.unobserved s elements : Random σ _) = drawElements node s elements := by
  induction elements with
  | nil => rfl
  | cons e rest ih =>
    have hsampler : elementSampler node.unobserved e s = elementSampler node e s := rfl
    unfold drawElements
    rw [hsampler, ih]

theorem drawNodes_unobserved (s : State α) (nodes : List (Node α)) :
    (drawNodes s (nodes.map Node.unobserved) : Random σ _) = drawNodes s nodes := by
  induction nodes generalizing s with
  | nil => rfl
  | cons node rest ih =>
    have hwidth : node.unobserved.width = node.width := rfl
    simp only [List.map_cons, drawNodes, drawElements_unobserved, hwidth, ih]

end Draws

/-- Two models of the same network, apart from what is observed. -/
structure SameNetwork (m m' : Model α) : Prop where
  nodes_eq : m.nodes.toList.map Node.unobserved = m'.nodes.toList.map Node.unobserved
  outputs_eq : m.outputs = m'.outputs
  transformation_eq : m.transformation = m'.transformation
  arguments_eq : m.arguments = m'.arguments

variable {m m' : Model α}

namespace SameNetwork

theorem samplePrior_eq {σ : Type} [RandomWords σ] (h : m.SameNetwork m') :
    (m.samplePrior : Random σ _) = m'.samplePrior := by
  unfold samplePrior
  rw [← drawNodes_unobserved, h.nodes_eq, drawNodes_unobserved]

omit [Scalar α] in
theorem isScalar_eq (h : m.SameNetwork m') (i : Nat) :
    m.nodes[i]?.map Node.isScalar = m'.nodes[i]?.map Node.isScalar := by
  have hat := congrArg (fun nodes => nodes[i]?.map Node.isScalar) h.nodes_eq
  simp only [List.getElem?_map, Array.getElem?_toList, Option.map_map] at hat
  exact hat

theorem evaluate_eq (h : m.SameNetwork m') (s : State α) : m.evaluate s = m'.evaluate s := by
  have harguments : m.argumentValues s = m'.argumentValues s := by
    unfold argumentValues
    simp only [h.arguments_eq, h.isScalar_eq]
  unfold evaluate
  rw [harguments, h.transformation_eq, h.outputs_eq]

theorem probe_eq {σ : Type} [RandomWords σ] (h : m.SameNetwork m') (attempts : Nat) :
    (Program.probe m attempts : Random σ _) = Program.probe m' attempts := by
  induction attempts with
  | zero => rfl
  | succ attempts ih =>
    unfold Program.probe
    simp only [h.samplePrior_eq, h.evaluate_eq, ih]

end SameNetwork

end Model

namespace Program

variable {p : Program α} {parents : List (List Nat)} {order : List Nat}

theorem sameNetwork_model (observations observations' : List (SiteObservation α)) :
    (p.model parents order observations).SameNetwork (p.model parents order observations') := by
  refine ⟨?_, rfl, rfl, rfl⟩
  change (List.filterMap _ order).map Node.unobserved = (List.filterMap _ order).map Node.unobserved
  rw [List.map_filterMap, List.map_filterMap]
  refine List.filterMap_congr fun d _ => ?_
  rw [Option.map_map, Option.map_map]
  rfl

variable {m : Model α} {o : Observation α}

theorem assemble_eq (hnames : p.checkNames = .ok ()) (hparents : p.parents = .ok parents)
    (horder : p.inputOrder parents = .ok order) (hliterals : p.checkLiterals order = .ok ()) :
    p.assemble = (p.observations.mapM (p.bindObservation (declarationOf order))).map
      (p.model parents order) := by
  unfold assemble
  rw [hnames, hparents]
  change (p.inputOrder parents >>= _) = _
  rw [horder]
  change (p.checkLiterals order >>= _) = _
  rw [hliterals]
  rfl

/-- One more observation is bound as if it were alone, and refused if that fails. -/
theorem compile_withObservation (hm : p.compile = .ok m) (o : Observation α) :
    (∃ bound m', p.bindObservation m.declaration o = .ok bound ∧
        (p.withObservation o).compile = .ok m' ∧ m'.declaration = m.declaration ∧
        m'.observations = m.observations ++ [bound]) ∨
      ∃ e, p.bindObservation m.declaration o = .error e ∧
        (p.withObservation o).compile = .error (.error e) := by
  obtain ⟨assembled, hassembled, h⟩ := Except.bind_eq_ok_iff.mp hm
  rw [Except.mapError_eq_ok_iff] at hassembled
  obtain ⟨⟨⟩, hprobe, h⟩ := Except.bind_eq_ok_iff.mp h
  cases h
  obtain ⟨⟨⟩, hnames, h⟩ := Except.bind_eq_ok_iff.mp hassembled
  obtain ⟨parents, hparents, h⟩ := Except.bind_eq_ok_iff.mp h
  obtain ⟨order, horder, h⟩ := Except.bind_eq_ok_iff.mp h
  obtain ⟨⟨⟩, hliterals, h⟩ := Except.bind_eq_ok_iff.mp h
  obtain ⟨observations, hobservations, h⟩ := Except.bind_eq_ok_iff.mp h
  cases h
  -- The other steps of compilation do not look at the observations.
  have hassemble : (p.withObservation o).assemble =
      ((p.observations ++ [o]).mapM (p.bindObservation (declarationOf order))).map
        (p.model parents order) :=
    (p.withObservation o).assemble_eq hnames hparents horder hliterals
  rw [List.mapM_append, hobservations, List.mapM_cons] at hassemble
  change _ ∨ ∃ e, p.bindObservation (declarationOf order) o = .error e ∧ _
  cases ho : p.bindObservation (declarationOf order) o with
  | error e =>
    rw [ho] at hassemble
    refine .inr ⟨e, rfl, ?_⟩
    unfold compile
    rw [hassemble]
    rfl
  | ok bound =>
    rw [ho] at hassemble
    refine .inl ⟨bound, p.model parents order (observations ++ [bound]), ho, ?_, rfl, rfl⟩
    unfold compile
    rw [hassemble]
    change (((probe (p.model parents order (observations ++ [bound])) probeAttempts).run
      (Xoshiro.ofSeed probeSeed)).1 >>= fun _ => .ok _) = _
    rw [(sameNetwork_model (observations ++ [bound]) observations).probe_eq, hprobe]
    rfl

end Program

end InfoFlow
