import InfoFlow.Inference.Run
import InfoFlow.Proofs.Model.Compile
import InfoFlow.Proofs.Model.State

namespace InfoFlow

variable {α : Type}

/-- Row `r` of a matrix; empty if there is none. -/
def Matrix.row (m : Matrix α) (r : Nat) : List α := (m.rows[r]?.map Vector.toList).getD []

namespace Model

/-- The state in row `r` of the matrices of a chain. -/
def rowState (m : Model α) (matrices : List (Matrix α)) (r : Nat) : State α :=
  m.nodes.map fun node => ((matrices[node.declared]?.map (·.row r)).getD []).toArray

/-- The outputs in row `r` of the matrices of a chain. -/
def rowOutputs (m : Model α) (matrices : List (Matrix α)) (r : Nat) : List (List α) :=
  (List.range m.outputs.length).map fun o =>
    (matrices[m.declaration.length + o]?.map (·.row r)).getD []

end Model

variable [Scalar α]

namespace Model

omit [Scalar α] in
theorem isSome_of_mem_declaration {m : Model α} (hm : m.WellFormed) {β : Type} {f : Node α → β} :
    ∀ i ∈ m.declaration, (m.nodes[i]?.map f).isSome := by
  intro i hi
  rw [Array.getElem?_eq_getElem (hm.declaration_lt_size hi)]
  rfl

omit [Scalar α] in
theorem length_inputs {m : Model α} (hm : m.WellFormed) {β : Type} {f : Node α → β} :
    (m.declaration.filterMap fun i => m.nodes[i]?.map f).length = m.declaration.length := by
  rw [List.length_filterMap_eq_countP, List.countP_eq_length]
  exact isSome_of_mem_declaration hm

section Rows

variable {m : Model α} {draws : List (Draw α)} {draw : Draw α} {r : Nat}

theorem row_ofLists {width : Nat} {rows : List (List α)} {row : List α} (hr : rows[r]? = some row)
    (hwidth : row.length = width) : (Matrix.ofLists width rows).row r = row := by
  unfold Matrix.row Matrix.ofLists
  simp only [List.getElem?_toArray, List.getElem?_map, hr, Option.map_some, Option.getD_some,
    Vector.toList_ofFn]
  subst hwidth
  exact List.ext_getElem (by simp) fun j hj hj' => by simp

omit [Scalar α] in
/-- The traced variable at the place where a node was declared has the width of the node. -/
theorem tracedVariables_node (hm : m.WellFormed) {i : Nat} {node : Node α}
    (hi : m.nodes[i]? = some node) :
    ∃ info, m.tracedVariables[node.declared]? = some info ∧ info.width = node.width := by
  have hdeclared := hm.declaration_declared hi
  have hlt : node.declared < m.declaration.length := (List.getElem?_eq_some_iff.mp hdeclared).1
  unfold tracedVariables
  rw [List.getElem?_append_left (by rwa [length_inputs hm]),
    getElem?_filterMap_of_isSome (isSome_of_mem_declaration hm), hdeclared, Option.bind_some, hi]
  exact ⟨_, rfl, rfl⟩

omit [Scalar α] in
/-- The outputs follow the nodes among the traced variables. -/
theorem tracedVariables_output (hm : m.WellFormed) {o : Nat} {output : Output}
    (ho : m.outputs[o]? = some output) :
    ∃ info, m.tracedVariables[m.declaration.length + o]? = some info ∧
      info.width = output.width := by
  unfold tracedVariables
  rw [List.getElem?_append_right (by rw [length_inputs hm]; omega), length_inputs hm,
    Nat.add_sub_cancel_left, List.getElem?_map, ho]
  exact ⟨_, rfl, rfl⟩

theorem recordedMatrices_row (hr : draws[r]? = some draw) {v : Nat} {info : TracedVariable}
    (hv : m.tracedVariables[v]? = some info)
    (hwidth : ((m.tracedValues draw).getD v []).length = info.width) :
    ((m.recordedMatrices draws)[v]?.map (·.row r)) = some ((m.tracedValues draw).getD v []) := by
  unfold recordedMatrices
  simp only [List.getElem?_map, List.getElem?_zipIdx, hv, Option.map_some, Nat.zero_add]
  refine congrArg some (row_ofLists ?_ hwidth)
  simp [hr]

theorem size_of_mem_recordedMatrices {matrix : Matrix α}
    (h : matrix ∈ m.recordedMatrices draws) : matrix.size = draws.length := by
  obtain ⟨⟨info, v⟩, _, rfl⟩ := List.mem_map.mp h
  simp [Matrix.size, Matrix.ofLists]

/-- The matrix of a node holds its values at every draw. -/
theorem row_recordedMatrices (hm : m.WellFormed) (hfits : m.Fits draw.state)
    (hr : draws[r]? = some draw) {i : Nat} {node : Node α} (hi : m.nodes[i]? = some node) :
    (m.recordedMatrices draws)[node.declared]?.map (·.row r) =
      some (draw.state.getD i #[]).toList := by
  obtain ⟨info, hinfo, hwidth⟩ := tracedVariables_node hm hi
  have hdeclared := hm.declaration_declared hi
  have hvalues : (m.tracedValues draw).getD node.declared [] =
      (draw.state.getD i #[]).toList := by
    unfold tracedValues
    rw [List.getD_eq_getElem?_getD, List.getElem?_append_left (by
      simpa using (List.getElem?_eq_some_iff.mp hdeclared).1), List.getElem?_map, hdeclared]
    rfl
  rw [recordedMatrices_row hr hinfo (by
    rw [hvalues, hwidth, Array.length_toList, hfits.size_getD hi]), hvalues]

/-- The recorded matrices hold the state of every draw. -/
theorem rowState_recordedMatrices (hm : m.WellFormed) (hfits : m.Fits draw.state)
    (hr : draws[r]? = some draw) : m.rowState (m.recordedMatrices draws) r = draw.state := by
  refine Array.ext_getElem? fun i => ?_
  unfold rowState
  rw [Array.getElem?_map]
  cases hi : m.nodes[i]? with
  | none =>
    have hout : draw.state.size ≤ i := hfits.size_eq ▸ Array.getElem?_eq_none_iff.mp hi
    simp [hout]
  | some node =>
    have hlt : i < draw.state.size := hfits.size_eq ▸ (Array.getElem?_eq_some_iff.mp hi).1
    rw [Option.map_some, row_recordedMatrices hm hfits hr hi]
    simp [hlt]

/-- The recorded matrices hold the outputs at every draw. -/
theorem rowOutputs_recordedMatrices (hm : m.WellFormed)
    (hwidths : draw.outputs.map List.length = m.outputs.map Output.width)
    (hr : draws[r]? = some draw) : m.rowOutputs (m.recordedMatrices draws) r = draw.outputs := by
  have hlength : draw.outputs.length = m.outputs.length := by
    simpa using congrArg List.length hwidths
  refine List.ext_getElem? fun o => ?_
  unfold rowOutputs
  rw [List.getElem?_map]
  cases ho : m.outputs[o]? with
  | none =>
    have hout : m.outputs.length ≤ o := List.getElem?_eq_none_iff.mp ho
    simp [hout, hlength ▸ hout]
  | some output =>
    obtain ⟨info, hinfo, hwidth⟩ := tracedVariables_output hm ho
    have hlt : o < m.outputs.length := (List.getElem?_eq_some_iff.mp ho).1
    have hvalues : (m.tracedValues draw).getD (m.declaration.length + o) [] =
        draw.outputs.getD o [] := by
      unfold tracedValues
      rw [List.getD_eq_getElem?_getD, List.getElem?_append_right (by simp)]
      simp [hlt]
    have houtput : (draw.outputs.getD o []).length = output.width := by
      have hsame := congrArg (fun widths => widths[o]?) hwidths
      simp only [List.getElem?_map, ho, Option.map_some, Option.map_eq_some_iff] at hsame
      obtain ⟨values, hvalues, hsize⟩ := hsame
      rw [List.getD_eq_getElem?_getD, hvalues]
      exact hsize
    have hrow := recordedMatrices_row hr hinfo (by rw [hvalues, hwidth, houtput])
    rw [List.getElem?_range hlt, Option.map_some, hrow, hvalues]
    simp [hlength ▸ hlt]

end Rows

end Model

/-- A trace has no more rows for a chain than the chain recorded. -/
theorem Trace.lt_length_of_lt_draws {m : Model α} {isConditioned : Bool} {runs : List (ChainRun α)}
    {k r : Nat} {run : ChainRun α} (hrun : runs[k]? = some run)
    (hr : r < (Trace.ofRuns m isConditioned runs).draws.getD k 0) : r < run.draws.length := by
  have hsizes : (Trace.ofRuns m isConditioned runs).draws =
      (runs.map fun run => m.recordedMatrices run.draws).map
        fun matrices => (matrices.head?.map Matrix.size).getD 0 := rfl
  rw [hsizes, List.getD_eq_getElem?_getD, List.getElem?_map, List.getElem?_map, hrun] at hr
  simp only [Option.map_some, Option.getD_some] at hr
  cases hhead : (m.recordedMatrices run.draws).head? with
  | none => simp [hhead] at hr
  | some matrix =>
    have hsize := Model.size_of_mem_recordedMatrices (List.mem_of_mem_head? hhead)
    simpa [hhead, hsize] using hr

end InfoFlow
