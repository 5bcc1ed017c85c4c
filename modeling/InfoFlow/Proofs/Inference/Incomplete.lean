import InfoFlow.Proofs.Inference.Lookups
import InfoFlow.Proofs.Leakage.Queries

namespace InfoFlow

namespace Lookup

variable {β γ : Type}

/-- The lookup names a matrix or a column that is not stored. -/
def EndsOutside (l : Lookup β) : Prop := l.run = .error .outOfBounds

theorem not_endsOutside_pure (b : β) : ¬ (pure b : Lookup β).EndsOutside := nofun

theorem not_endsOutside_failure : ¬ (failure : Lookup β).EndsOutside := nofun

theorem not_endsOutside_optional (x : Option β) : ¬ (optional x).EndsOutside := by
  cases x with
  | none => nofun
  | some b => nofun

theorem endsOutside_required_iff {x : Option β} : (required x).EndsOutside ↔ x = none := by
  cases x with
  | none => exact iff_of_true rfl rfl
  | some b => exact iff_of_false nofun nofun

theorem required_some (b : β) : required (some b) = pure b := rfl

/-- What follows a lookup is looked up only if there is an answer. -/
theorem endsOutside_bind_iff {l : Lookup β} {f : β → Lookup γ} :
    (l >>= f).EndsOutside ↔ l.EndsOutside ∨ ∃ b, l = pure b ∧ (f b).EndsOutside := by
  match l with
  | .error .outOfBounds => exact iff_of_true rfl (.inl rfl)
  | .ok none =>
    refine iff_of_false nofun ?_
    rintro (h | ⟨b, h, -⟩) <;> cases h
  | .ok (some b) =>
    constructor
    · exact fun h => .inr ⟨b, rfl, h⟩
    · rintro (h | ⟨_, h, hf⟩)
      · cases h
      · cases h
        exact hf

theorem endsOutside_optional_bind_iff {x : Option β} {f : β → Lookup γ} :
    (optional x >>= f).EndsOutside ↔ ∃ b, x = some b ∧ (f b).EndsOutside := by
  simp only [endsOutside_bind_iff, not_endsOutside_optional, optional_eq_pure_iff, false_or]

theorem endsOutside_ite_failure_iff {p : Prop} [Decidable p] {f : β → Lookup γ} {l : Lookup γ} :
    EndsOutside (if p then failure >>= f else l) ↔ ¬ p ∧ l.EndsOutside := by
  split
  case isTrue hp => exact iff_of_false nofun fun h => h.1 hp
  case isFalse hp => exact (and_iff_right hp).symm

theorem endsOutside_mapM_required_iff {f : β → Option γ} {xs : List β} :
    (xs.mapM fun x => required (f x)).EndsOutside ↔ ∃ x ∈ xs, f x = none := by
  induction xs with
  | nil =>
    rw [List.mapM_nil]
    exact iff_of_false (not_endsOutside_pure _) (by simp)
  | cons x xs ih =>
    rw [List.mapM_cons]
    simp only [endsOutside_bind_iff, endsOutside_required_iff, required_eq_pure_iff, ih,
      not_endsOutside_pure, and_false, exists_false, or_false, List.exists_mem_cons_iff]
    cases hx : f x with
    | none => exact iff_of_true (.inl rfl) (.inl rfl)
    | some y => simp

end Lookup

namespace Trace

variable {α : Type} {t : Trace α} {name : String} {v : Nat}

/-- Some chain has no samples of a variable. -/
def LacksMatrix (t : Trace α) (name : String) : Prop :=
  ∃ v, t.position? name = some v ∧ ∃ matrices ∈ t.chains, matrices.length ≤ v

/-- Some chain has no samples of an element that a variable is said to have. -/
def LacksColumn (t : Trace α) (name : String) (e : Nat) : Prop :=
  ∃ v info, t.position? name = some v ∧ t.traced[v]? = some info ∧ e < info.width ∧
    ∃ matrices ∈ t.chains, ∀ m, matrices[v]? = some m → m.width ≤ e

/-- All chains agree on the width of a variable, which is too small for an element that the variable is said
to have. -/
def MergesNarrow (t : Trace α) (name : String) (e : Nat) : Prop :=
  ∃ info merged, t.info? name = some info ∧ e < info.width ∧ t.merged name = pure merged ∧
    merged.width ≤ e

/-- What a name stands for has samples in every chain, at least as wide as it is said to be. A variable behind
another one of its name need not have any, since it is never looked up. -/
def IsComplete (t : Trace α) : Prop :=
  ∀ name v info, t.position? name = some v → t.traced[v]? = some info →
    ∀ matrices ∈ t.chains, ∃ m, matrices[v]? = some m ∧ info.width ≤ m.width

/-- What a run records is complete. -/
theorem WellFormed.isComplete (h : t.WellFormed) : t.IsComplete := by
  intro name v info _ hinfo matrices hmem
  obtain ⟨m, hm, hwidth⟩ := h.exists_matrix hinfo hmem
  exact ⟨m, hm, hwidth.ge⟩

theorem info?_of_position? (h : t.position? name = some v) :
    ∃ info, t.info? name = some info ∧ t.traced[v]? = some info := by
  obtain ⟨hv, hname, hbefore⟩ := List.findIdx?_eq_some_iff_getElem.mp h
  refine ⟨t.traced[v], ?_, List.getElem?_eq_getElem hv⟩
  refine List.find?_eq_some_iff_getElem.mpr ⟨hname, v, hv, rfl, fun j hj => ?_⟩
  simpa using hbefore j hj

theorem chain_endsOutside_iff {c : Nat} : (t.chain c name).EndsOutside ↔
    ∃ v matrices, t.position? name = some v ∧ t.chains[c]? = some matrices ∧ matrices.length ≤ v := by
  unfold chain
  simp only [Lookup.endsOutside_optional_bind_iff, Lookup.endsOutside_required_iff,
    List.getElem?_eq_none_iff, exists_and_left]

theorem matrices_endsOutside_iff :
    (t.matrices v).EndsOutside ↔ ∃ matrices ∈ t.chains, matrices.length ≤ v := by
  unfold matrices
  simp only [Lookup.endsOutside_mapM_required_iff, List.getElem?_eq_none_iff]

theorem merged_endsOutside_iff : (t.merged name).EndsOutside ↔ t.LacksMatrix name := by
  unfold merged LacksMatrix
  rw [Lookup.endsOutside_optional_bind_iff]
  simp only [Lookup.endsOutside_bind_iff, matrices_endsOutside_iff, Lookup.not_endsOutside_optional,
    and_false, exists_false, or_false]

theorem exists_info?_of_lacksMatrix (h : t.LacksMatrix name) : ∃ info, t.info? name = some info := by
  obtain ⟨v, hv, -⟩ := h
  obtain ⟨info, hinfo, -⟩ := info?_of_position? hv
  exact ⟨info, hinfo⟩

theorem samples_endsOutside_iff {selector : String} : (t.samples selector).EndsOutside ↔
    ∃ s, Selector.parse? selector = some s ∧
      (t.LacksMatrix s.name ∨ ∃ e, s.index = some e ∧ t.MergesNarrow s.name e) := by
  unfold samples
  rw [Lookup.endsOutside_optional_bind_iff]
  refine exists_congr fun s => and_congr_right fun _ => ?_
  rw [Lookup.endsOutside_optional_bind_iff]
  simp only [Lookup.endsOutside_bind_iff, merged_endsOutside_iff]
  cases hindex : s.index with
  | none =>
    simp only [Lookup.not_endsOutside_pure, and_false, exists_false, or_false, reduceCtorEq, false_and,
      exists_and_right]
    exact and_iff_right_of_imp exists_info?_of_lacksMatrix
  | some e =>
    simp only [Lookup.endsOutside_ite_failure_iff, Lookup.endsOutside_bind_iff,
      Lookup.endsOutside_required_iff, Matrix.ofColumn?_eq_none_iff, Lookup.not_endsOutside_pure, and_false,
      exists_false, or_false, Nat.not_le, Option.some.injEq, exists_eq_left']
    constructor
    · rintro ⟨info, hinfo, hlacks | ⟨merged, hmerged, he, hnarrow⟩⟩
      · exact .inl hlacks
      · exact .inr ⟨info, merged, hinfo, he, hmerged, hnarrow⟩
    · rintro (hlacks | ⟨info, merged, hinfo, he, hmerged, hnarrow⟩)
      · obtain ⟨info, hinfo⟩ := exists_info?_of_lacksMatrix hlacks
        exact ⟨info, hinfo, .inl hlacks⟩
      · exact ⟨info, hinfo, .inr ⟨merged, hmerged, he, hnarrow⟩⟩

theorem matrices_eq_pure (h : ∀ matrices ∈ t.chains, v < matrices.length) :
    t.matrices v = pure (t.samplesOf v) := by
  refine Lookup.mapM_required fun matrices hmem => ?_
  rw [List.getElem?_eq_getElem (h matrices hmem)]
  rfl

/-- The columns of an element are all there unless some chain has no matrix that is wide enough. -/
theorem columns_endsOutside_iff {e : Nat} :
    (t.matrices v >>= fun ms => ms.mapM fun m => Lookup.required (m.column? e)).EndsOutside ↔
      ∃ matrices ∈ t.chains, ∀ m, matrices[v]? = some m → m.width ≤ e := by
  by_cases hall : ∀ matrices ∈ t.chains, v < matrices.length
  · rw [matrices_eq_pure hall, pure_bind, Lookup.endsOutside_mapM_required_iff]
    simp only [Matrix.column?_eq_none_iff]
    constructor
    · rintro ⟨m, hm, hnarrow⟩
      obtain ⟨matrices, hmem, hget⟩ := List.mem_filterMap.mp hm
      refine ⟨matrices, hmem, fun m' hm' => ?_⟩
      cases hget.symm.trans hm'
      exact hnarrow
    · rintro ⟨matrices, hmem, hnarrow⟩
      have hget := List.getElem?_eq_getElem (hall matrices hmem)
      exact ⟨_, List.mem_filterMap.mpr ⟨matrices, hmem, hget⟩, hnarrow _ hget⟩
  · push Not at hall
    obtain ⟨matrices, hmem, hshort⟩ := hall
    refine iff_of_true (Lookup.endsOutside_bind_iff.mpr (.inl ?_)) ⟨matrices, hmem, fun m hm => ?_⟩
    · exact matrices_endsOutside_iff.mpr ⟨matrices, hmem, hshort⟩
    · rw [List.getElem?_eq_none hshort] at hm
      cases hm

theorem elementChains_endsOutside_iff {e : Nat} :
    (t.elementChains name e).EndsOutside ↔ t.LacksColumn name e := by
  unfold elementChains LacksColumn
  rw [Lookup.endsOutside_optional_bind_iff]
  refine exists_congr fun v => ?_
  rw [exists_and_left]
  refine and_congr_right fun hv => ?_
  obtain ⟨info, -, hinfo⟩ := info?_of_position? hv
  rw [hinfo]
  simp only [Lookup.required_some, pure_bind, Lookup.endsOutside_ite_failure_iff, columns_endsOutside_iff,
    Nat.not_le, Option.some.injEq, exists_eq_left']

/-- Merged samples are as wide as those of some chain. -/
theorem lacksColumn_of_mergesNarrow {e : Nat} (h : t.MergesNarrow name e) : t.LacksColumn name e := by
  obtain ⟨info, merged, hinfo, he, hmerged, hnarrow⟩ := h
  obtain ⟨v, hv, hstacked⟩ := Lookup.bind_eq_pure_iff.mp hmerged
  obtain ⟨ms, hms, hstacked⟩ := Lookup.bind_eq_pure_iff.mp hstacked
  rw [Lookup.optional_eq_pure_iff] at hv hstacked
  obtain ⟨info', hinfo', hget⟩ := info?_of_position? hv
  obtain rfl : info' = info := Option.some.inj (hinfo'.symm.trans hinfo)
  have hall : ∀ matrices ∈ t.chains, v < matrices.length := by
    by_contra hlacks
    push Not at hlacks
    exact Lookup.not_endsOutside_pure ms (hms ▸ matrices_endsOutside_iff.mpr hlacks)
  obtain rfl := Lookup.pure_eq_pure_iff.mp ((matrices_eq_pure hall).symm.trans hms)
  obtain ⟨m, hm, hwidth⟩ := Matrix.width_of_stackAll? hstacked
  obtain ⟨matrices, hmem, hfound⟩ := List.mem_filterMap.mp hm
  refine ⟨v, info', hv, hget, he, matrices, hmem, fun m' hm' => ?_⟩
  cases hfound.symm.trans hm'
  exact hwidth.ge.trans hnarrow

theorem isComplete_iff :
    t.IsComplete ↔ (∀ name, ¬ t.LacksMatrix name) ∧ ∀ name e, ¬ t.LacksColumn name e := by
  constructor
  · intro h
    constructor
    · rintro name ⟨v, hv, matrices, hmem, hshort⟩
      obtain ⟨info, -, hinfo⟩ := info?_of_position? hv
      obtain ⟨m, hm, -⟩ := h name v info hv hinfo matrices hmem
      rw [List.getElem?_eq_none hshort] at hm
      cases hm
    · rintro name e ⟨v, info, hv, hinfo, he, matrices, hmem, hnarrow⟩
      obtain ⟨m, hm, hwidth⟩ := h name v info hv hinfo matrices hmem
      have hle := hnarrow m hm
      omega
  · rintro ⟨hmatrix, hcolumn⟩ name v info hv hinfo matrices hmem
    have hlong : v < matrices.length := by
      by_contra hshort
      exact hmatrix name ⟨v, hv, matrices, hmem, Nat.le_of_not_lt hshort⟩
    refine ⟨matrices[v], List.getElem?_eq_getElem hlong, ?_⟩
    by_contra hnarrow
    refine hcolumn name matrices[v].width ⟨v, info, hv, hinfo, Nat.lt_of_not_le hnarrow, matrices, hmem, ?_⟩
    intro m hm
    cases (List.getElem?_eq_getElem hlong).symm.trans hm
    exact Nat.le_refl _

end Trace

end InfoFlow
