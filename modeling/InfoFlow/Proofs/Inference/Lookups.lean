import InfoFlow.Inference.Trace
import InfoFlow.Proofs.Matrix
import InfoFlow.Proofs.Model.References
import InfoFlow.Proofs.Program.Selector

namespace InfoFlow

variable {α : Type}

/-- Every chain of the trace has a matrix of the right width for each variable, and no two variables
have the same name. -/
structure Trace.WellFormed (t : Trace α) : Prop where
  names_nodup : (t.traced.map TracedVariable.name).Nodup
  widths_eq {matrices : List (Matrix α)} : matrices ∈ t.chains →
    matrices.map Matrix.width = t.traced.map TracedVariable.width

namespace Lookup

variable {β γ : Type}

/-- Where everything that is required is there, it is the answer. -/
theorem mapM_required {xs : List β} {f : β → Option γ} (h : ∀ x ∈ xs, (f x).isSome) :
    xs.mapM (fun x => required (f x)) = pure (xs.filterMap f) := by
  induction xs with
  | nil => rfl
  | cons x xs ih =>
    obtain ⟨y, hy⟩ := Option.isSome_iff_exists.mp (h x List.mem_cons_self)
    rw [List.mapM_cons, ih fun z hz => h z (List.mem_cons_of_mem x hz), hy,
      List.filterMap_cons_some hy]
    rfl

end Lookup

namespace Trace

variable {t : Trace α} {v : Nat} {info : TracedVariable}

/-- The matrices of variable `v`, chain by chain. -/
def samplesOf (t : Trace α) (v : Nat) : List (Matrix α) := t.chains.filterMap (·[v]?)

/-- There are no samples of what no traced variable is named. -/
theorem samples_unknown {selector : String} (hs : ∀ s, Selector.parse? selector = some s →
    s.name ∉ t.traced.map TracedVariable.name) : t.samples selector = failure := by
  unfold samples
  cases hparse : Selector.parse? selector with
  | none => rfl
  | some s =>
    have hinfo : t.info? s.name = none := by
      refine List.find?_eq_none.mpr fun info hinfo hname => hs s hparse ?_
      exact List.mem_map.mpr ⟨info, hinfo, by simpa using hname⟩
    simp only [Lookup.optional, pure_bind, hinfo]
    rfl

namespace WellFormed

theorem info?_eq (h : t.WellFormed) (hv : t.traced[v]? = some info) :
    t.info? info.name = some info := by
  have hmem := List.mem_of_getElem? hv
  unfold info?
  cases hfound : t.traced.find? (·.name == info.name) with
  | none =>
    have hother := List.find?_eq_none.mp hfound info hmem
    simp at hother
  | some found =>
    have hname : found.name = info.name := by simpa using List.find?_some hfound
    rw [List.inj_on_of_nodup_map h.names_nodup (List.mem_of_find?_eq_some hfound) hmem hname]

theorem position?_eq (h : t.WellFormed) (hv : t.traced[v]? = some info) :
    t.position? info.name = some v :=
  findIdx?_key h.names_nodup hv

/-- Every chain has a matrix of the variable, as wide as the variable. -/
theorem exists_matrix (h : t.WellFormed) (hv : t.traced[v]? = some info)
    {matrices : List (Matrix α)} (hmem : matrices ∈ t.chains) :
    ∃ m, matrices[v]? = some m ∧ m.width = info.width := by
  have hwidth := congrArg (·[v]?) (h.widths_eq hmem)
  simpa [hv, Option.map_eq_some_iff] using hwidth

theorem width_of_mem_samplesOf (h : t.WellFormed) (hv : t.traced[v]? = some info) {m : Matrix α}
    (hm : m ∈ t.samplesOf v) : m.width = info.width := by
  obtain ⟨matrices, hmem, hget⟩ := List.mem_filterMap.mp hm
  obtain ⟨found, hfound, hwidth⟩ := h.exists_matrix hv hmem
  rw [hget] at hfound
  cases hfound
  exact hwidth

theorem matrices_eq (h : t.WellFormed) (hv : t.traced[v]? = some info) :
    t.matrices v = pure (t.samplesOf v) := by
  refine Lookup.mapM_required fun matrices hmem => ?_
  obtain ⟨m, hm, _⟩ := h.exists_matrix hv hmem
  rw [hm]
  rfl

/-- The merged samples of a variable are those of all chains, in order. -/
theorem merged_eq (h : t.WellFormed) (hchains : t.chains ≠ []) (hv : t.traced[v]? = some info) :
    ∃ merged, t.merged info.name = pure merged ∧ merged.width = info.width ∧
      merged.toLists = (t.samplesOf v).flatMap Matrix.toLists := by
  have hne : t.samplesOf v ≠ [] := by
    obtain ⟨matrices, hmem⟩ := List.exists_mem_of_ne_nil _ hchains
    obtain ⟨m, hm, _⟩ := h.exists_matrix hv hmem
    exact List.ne_nil_of_mem (List.mem_filterMap.mpr ⟨matrices, hmem, hm⟩)
  obtain ⟨merged, hmerged, hwidth, hrows⟩ :=
    Matrix.stackAll?_eq hne fun m hm => h.width_of_mem_samplesOf hv hm
  refine ⟨merged, ?_, hwidth, hrows⟩
  unfold Trace.merged
  simp only [h.position?_eq hv, h.matrices_eq hv, Lookup.optional, pure_bind, hmerged]

/-- The draws of an element are its column in every chain. -/
theorem elementChains_eq (h : t.WellFormed) (hv : t.traced[v]? = some info) {e : Nat}
    (he : e < info.width) : t.elementChains info.name e =
      pure ((t.samplesOf v).map fun m => m.toLists.filterMap (·[e]?)) := by
  have hcolumn (m : Matrix α) (hm : m ∈ t.samplesOf v) :
      m.column? e = some (m.toLists.filterMap (·[e]?)) :=
    Matrix.column?_eq ((h.width_of_mem_samplesOf hv hm).symm ▸ he)
  have hcolumns : (t.samplesOf v).mapM (fun m => Lookup.required (m.column? e)) =
      pure ((t.samplesOf v).map fun m => m.toLists.filterMap (·[e]?)) := by
    rw [Lookup.mapM_required fun m hm => by rw [hcolumn m hm]; rfl, List.filterMap_congr hcolumn,
      List.filterMap_eq_map']
  unfold elementChains
  simp only [h.position?_eq hv, h.matrices_eq hv, hv, Lookup.optional, Lookup.required, pure_bind,
    Nat.not_le.mpr he, if_false]
  exact hcolumns

theorem forall₂_chains (h : t.WellFormed) (hv : t.traced[v]? = some info) {e : Nat}
    (he : e < info.width) :
    List.Forall₂ (fun matrices xs => (matrices[v]?.bind (·.column? e)) = some xs) t.chains
      ((t.samplesOf v).map fun m => m.toLists.filterMap (·[e]?)) := by
  have hall (chains : List (List (Matrix α))) (hchains : chains ⊆ t.chains) :
      List.Forall₂ (fun matrices xs => (matrices[v]?.bind (·.column? e)) = some xs) chains
        ((chains.filterMap (·[v]?)).map fun m => m.toLists.filterMap (·[e]?)) := by
    induction chains with
    | nil => exact .nil
    | cons matrices chains ih =>
      obtain ⟨m, hm, hwidth⟩ := h.exists_matrix hv (hchains List.mem_cons_self)
      rw [List.filterMap_cons_some (f := (·[v]?)) hm, List.map_cons]
      refine .cons ?_ (ih fun _ hmem => hchains (List.mem_cons_of_mem _ hmem))
      rw [hm, Option.bind_some, Matrix.column?_eq (hwidth ▸ he)]
  exact hall t.chains (List.Subset.refl _)

/-- A selector that is the name of a variable stands for all of its samples. -/
theorem samples_whole (h : t.WellFormed) (hchains : t.chains ≠ []) (hv : t.traced[v]? = some info)
    {selector : String} (hs : Selector.parse? selector = some ⟨info.name, none⟩) :
    ∃ merged, t.merged info.name = pure merged ∧
      t.samples selector = pure (merged, info.isDiscrete) := by
  obtain ⟨merged, hmerged, _⟩ := h.merged_eq hchains hv
  refine ⟨merged, hmerged, ?_⟩
  unfold samples
  simp only [hs, Lookup.optional, pure_bind, h.info?_eq hv, hmerged]

/-- A selector of an element stands for the column of the element. -/
theorem samples_column (h : t.WellFormed) (hchains : t.chains ≠ []) (hv : t.traced[v]? = some info)
    {selector : String} {e : Nat} (hs : Selector.parse? selector = some ⟨info.name, some e⟩)
    (he : e < info.width) :
    ∃ merged column, t.merged info.name = pure merged ∧ merged.width = info.width ∧
      merged.toLists = (t.samplesOf v).flatMap Matrix.toLists ∧
      merged.ofColumn? e = some column ∧
      t.samples selector = pure (column, info.isDiscrete) := by
  obtain ⟨merged, hmerged, hwidth, hrows⟩ := h.merged_eq hchains hv
  obtain ⟨column, hcolumn, _⟩ := Matrix.ofColumn?_eq (hwidth ▸ he)
  refine ⟨merged, column, hmerged, hwidth, hrows, hcolumn, ?_⟩
  unfold samples
  simp only [hs, Lookup.optional, Lookup.required, pure_bind, h.info?_eq hv, hmerged,
    Nat.not_le.mpr he, if_false, hcolumn]

/-- There are no samples of an element that the variable does not have. -/
theorem samples_beyond (h : t.WellFormed) (hchains : t.chains ≠ []) (hv : t.traced[v]? = some info)
    {selector : String} {e : Nat} (hs : Selector.parse? selector = some ⟨info.name, some e⟩)
    (he : info.width ≤ e) : t.samples selector = failure := by
  obtain ⟨merged, hmerged, _⟩ := h.merged_eq hchains hv
  unfold samples
  simp only [hs, Lookup.optional, pure_bind, h.info?_eq hv, hmerged, he, if_true]
  rfl

/-- The samples of an element are its column of the merged samples, and the draws of all chains, in
order. -/
theorem samples_element (h : t.WellFormed) (hchains : t.chains ≠ [])
    (hv : t.traced[v]? = some info) (hname : Selector.isName info.name.toList = true) {e : Nat}
    (he : e < info.width) (hword : e < UInt64.size) :
    ∃ merged column chains, t.merged info.name = pure merged ∧
      t.samples (info.name ++ "[" ++ toString e ++ "]") = pure (column, info.isDiscrete) ∧
      merged.ofColumn? e = some column ∧ t.elementChains info.name e = pure chains ∧
      merged.column? e = some chains.flatten ∧
      List.Forall₂ (fun matrices xs => (matrices[v]?.bind (·.column? e)) = some xs) t.chains
        chains := by
  obtain ⟨merged, column, hmerged, hwidth, hrows, hcolumn, hsamples⟩ :=
    h.samples_column hchains hv (Selector.parse?_element hname hword) he
  refine ⟨merged, column, _, hmerged, hsamples, hcolumn, h.elementChains_eq hv he, ?_,
    h.forall₂_chains hv he⟩
  rw [Matrix.column?_eq (hwidth ▸ he), hrows]
  rw [List.filterMap_flatMap, List.flatten_eq_flatMap, List.flatMap_map]
  rfl

end WellFormed

end Trace

end InfoFlow
