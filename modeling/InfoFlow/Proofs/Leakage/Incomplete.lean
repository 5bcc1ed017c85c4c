import InfoFlow.Proofs.Inference.Incomplete
import InfoFlow.Proofs.Information.Estimates
import InfoFlow.Proofs.Leakage.Scores

namespace InfoFlow

namespace Queried

variable {β γ : Type}

/-- The query gets to a lookup that ends out of bounds. -/
def EndsOutside (q : Queried β) : Prop := q.run = .error .outOfBounds

theorem not_endsOutside_pure (b : β) : ¬ (pure b : Queried β).EndsOutside := nofun

theorem not_endsOutside_ofExcept (e : Except LeakageError β) : ¬ (ofExcept e).EndsOutside := nofun

theorem endsOutside_lookup_iff {selector : String} {l : Lookup β} :
    (lookup selector l).EndsOutside ↔ l.EndsOutside := by
  match l with
  | .error .outOfBounds => exact iff_of_true rfl rfl
  | .ok none => exact iff_of_false nofun nofun
  | .ok (some b) => exact iff_of_false nofun nofun

theorem endsOutside_bind_iff {q : Queried β} {f : β → Queried γ} :
    (q >>= f).EndsOutside ↔ q.EndsOutside ∨ ∃ b, q = pure b ∧ (f b).EndsOutside := by
  match q with
  | .error .outOfBounds => exact iff_of_true rfl (.inl rfl)
  | .ok (.error e) =>
    refine iff_of_false nofun ?_
    rintro (h | ⟨b, h, -⟩) <;> cases h
  | .ok (.ok b) =>
    constructor
    · exact fun h => .inr ⟨b, rfl, h⟩
    · rintro (h | ⟨_, h, hf⟩)
      · cases h
      · cases h
        exact hf

/-- A traversal ends at the first element that has no answer, so that this is the one to be out of bounds. -/
theorem endsOutside_mapM_iff {f : β → Queried γ} {xs : List β} :
    (xs.mapM f).EndsOutside ↔ ∃ before x after, xs = before ++ x :: after ∧
      (∀ y ∈ before, ∃ b, f y = pure b) ∧ (f x).EndsOutside := by
  induction xs with
  | nil =>
    rw [List.mapM_nil]
    exact iff_of_false (not_endsOutside_pure _) (by simp)
  | cons x xs ih =>
    rw [List.mapM_cons]
    simp only [endsOutside_bind_iff, ih, not_endsOutside_pure, and_false, exists_false, or_false]
    constructor
    · rintro (hx | ⟨b, hb, before, y, after, rfl, hbefore, hy⟩)
      · exact ⟨[], x, xs, rfl, by simp, hx⟩
      · exact ⟨x :: before, y, after, rfl, List.forall_mem_cons.mpr ⟨⟨b, hb⟩, hbefore⟩, hy⟩
    · rintro ⟨before, y, after, hsplit, hbefore, hy⟩
      cases before with
      | nil =>
        cases hsplit
        exact .inl hy
      | cons z before =>
        cases hsplit
        obtain ⟨⟨b, hb⟩, hrest⟩ := List.forall_mem_cons.mp hbefore
        exact .inr ⟨b, hb, before, y, after, rfl, hrest, hy⟩

end Queried

namespace Trace

variable {α : Type} {t : Trace α}

/-- The first of some selectors without samples is one whose lookup ends out of bounds. -/
def StopsOutside (t : Trace α) (selectors : List String) : Prop :=
  ∃ before selector after, selectors = before ++ selector :: after ∧
    (∀ s ∈ before, ∃ found, t.samples s = pure found) ∧ (t.samples selector).EndsOutside

theorem queriedOutput_endsOutside_iff {outputs : List String} :
    (t.queriedOutput outputs).EndsOutside ↔ t.StopsOutside outputs := by
  unfold queriedOutput StopsOutside
  rw [Queried.endsOutside_bind_iff, Queried.endsOutside_mapM_iff]
  simp only [Queried.endsOutside_lookup_iff, Queried.lookup_eq_pure_iff]
  refine or_iff_left ?_
  rintro ⟨columns, -, hjoined⟩
  cases hvalues : Matrix.besideAll? (columns.map (·.1)) with
  | none =>
    rw [hvalues] at hjoined
    cases hjoined
  | some values =>
    rw [hvalues] at hjoined
    cases hjoined

section Secrets

variable {selector : String}

/-- What has samples, or lacks some, is a variable. -/
theorem exists_position? (h : t.samples selector ≠ failure) :
    ∃ s v, Selector.parse? selector = some s ∧ t.position? s.name = some v := by
  by_contra hnone
  push Not at hnone
  refine h (samples_unknown fun s hparse => ?_)
  exact findIdx?_key_eq_none_iff.mp (Option.eq_none_iff_forall_ne_some.mpr fun v => hnone s v hparse)

/-- A secret that is a variable is looked up as its samples are. -/
theorem queriedSecret_eq {s : Selector} {v : Nat} {info : TracedVariable}
    (hparse : Selector.parse? selector = some s) (hv : t.position? s.name = some v)
    (hinfo : t.traced[v]? = some info) :
    t.queriedSecret selector = Queried.lookup selector (t.samples selector >>= fun (values, isDiscrete) =>
      pure ⟨selector, v, s.index.getD 0, ⟨values, isDiscrete⟩, info.isReachable⟩) := by
  unfold queriedSecret
  simp only [hparse, hv, hinfo, Lookup.optional, Lookup.required_some, pure_bind]

theorem queriedSecret_endsOutside_iff :
    (t.queriedSecret selector).EndsOutside ↔ (t.samples selector).EndsOutside := by
  by_cases hsamples : t.samples selector = failure
  · unfold queriedSecret
    rw [hsamples, Queried.endsOutside_lookup_iff]
    simp only [Lookup.endsOutside_optional_bind_iff]
    refine iff_of_false ?_ Lookup.not_endsOutside_failure
    rintro ⟨_, _, _, _, h⟩
    cases h
  · -- The information about the secret is not looked up out of bounds: its position has been found.
    obtain ⟨s, v, hparse, hv⟩ := exists_position? hsamples
    obtain ⟨info, -, hinfo⟩ := info?_of_position? hv
    rw [queriedSecret_eq hparse hv hinfo, Queried.endsOutside_lookup_iff, Lookup.endsOutside_bind_iff]
    simp only [Lookup.not_endsOutside_pure, and_false, exists_false, or_false]

theorem exists_queriedSecret_iff :
    (∃ secret, t.queriedSecret selector = pure secret) ↔ ∃ found, t.samples selector = pure found := by
  constructor
  · rintro ⟨secret, h⟩
    exact ⟨_, (samples_of_queriedSecret h).2⟩
  · rintro ⟨found, hfound⟩
    have hsamples : t.samples selector ≠ failure := by
      rw [hfound]
      nofun
    obtain ⟨s, v, hparse, hv⟩ := exists_position? hsamples
    obtain ⟨info, -, hinfo⟩ := info?_of_position? hv
    rw [queriedSecret_eq hparse hv hinfo, hfound, pure_bind]
    exact ⟨_, Queried.lookup_eq_pure_iff.mpr rfl⟩

end Secrets

variable [Scalar α]

/-- A query ends out of bounds where it gets to an output, or else to a secret, whose samples are
incomplete. -/
theorem leakage_endsOutside_iff {query : LeakageQuery} : (t.leakage query).EndsOutside ↔
    query.secrets ≠ [] ∧ query.outputs ≠ [] ∧ query.params.validate = .ok () ∧
      (t.StopsOutside query.outputs ∨
        (∃ output, t.queriedOutput query.outputs = pure output) ∧ t.StopsOutside query.secrets) := by
  have hsecrets : (query.secrets.mapM t.queriedSecret).EndsOutside ↔ t.StopsOutside query.secrets := by
    unfold StopsOutside
    simp only [Queried.endsOutside_mapM_iff, queriedSecret_endsOutside_iff, exists_queriedSecret_iff]
  unfold leakage
  by_cases hempty : (query.secrets.isEmpty || query.outputs.isEmpty) = true
  · rw [if_pos hempty]
    refine iff_of_false nofun ?_
    simp only [Bool.or_eq_true, List.isEmpty_iff] at hempty
    tauto
  · rw [if_neg hempty]
    simp only [Bool.or_eq_true, List.isEmpty_iff, not_or] at hempty
    simp only [Queried.endsOutside_bind_iff, Queried.not_endsOutside_ofExcept,
      Queried.not_endsOutside_pure, queriedOutput_endsOutside_iff, hsecrets, Queried.ofExcept_eq_pure_iff,
      and_false, exists_false, or_false, false_or, exists_and_right]
    constructor
    · rintro ⟨⟨⟨⟩, hvalid⟩, hstops⟩
      exact ⟨hempty.1, hempty.2, hvalid, hstops⟩
    · rintro ⟨-, -, hvalid, hstops⟩
      exact ⟨⟨(), hvalid⟩, hstops⟩

/-- What a query estimates is estimated without a fault. Samples are counted in machine words. -/
theorem guarded_estimate_of_reportEntry [LawfulSizes α] {query : LeakageQuery} {output : Samples α}
    {secret : QueriedSecret α} {entry : ReportEntry α} (hvalid : query.params.validate = .ok ())
    (hsize : output.size ≤ 2 ^ 64) (h : reportEntry query output secret = .ok entry) :
    Guarded.estimate secret.samples output query.params =
      .ok (estimate secret.samples output query.params).1 := by
  have halign := size_of_reportEntry h
  have hneighbors := EstimatorParams.one_le_neighbors hvalid
  rcases Nat.eq_zero_or_pos secret.samples.size with hzero | hpos
  · -- Without samples both sides are constant, and nothing is looked up.
    have hconstant : secret.samples.values.isConstant = true := by
      unfold Matrix.isConstant
      rw [List.eq_nil_of_length_eq_zero ((Matrix.length_toLists _).trans hzero)]
    unfold Guarded.estimate estimate
    rw [hconstant, Bool.true_or, if_pos rfl, if_pos rfl]
    rfl
  · exact Guarded.estimate_eq halign hpos (halign.trans_le hsize) hneighbors

/-- No lookup in the trace ends out of bounds, and no query gets to one. -/
structure StaysInside (t : Trace α) : Prop where
  chain (c : Nat) (name : String) : ¬ (t.chain c name).EndsOutside
  merged (name : String) : ¬ (t.merged name).EndsOutside
  samples (selector : String) : ¬ (t.samples selector).EndsOutside
  elementChains (name : String) (e : Nat) : ¬ (t.elementChains name e).EndsOutside
  leakage (query : LeakageQuery) : ¬ (t.leakage query).EndsOutside

theorem IsComplete.staysInside (h : t.IsComplete) : t.StaysInside := by
  obtain ⟨hmatrix, hcolumn⟩ := isComplete_iff.mp h
  have hsamples (selector : String) : ¬ (t.samples selector).EndsOutside := by
    rw [samples_endsOutside_iff]
    rintro ⟨s, -, hlacks | ⟨e, -, hnarrow⟩⟩
    · exact hmatrix s.name hlacks
    · exact hcolumn s.name e (lacksColumn_of_mergesNarrow hnarrow)
  have hstops (selectors : List String) : ¬ t.StopsOutside selectors := by
    rintro ⟨_, selector, _, _, _, houtside⟩
    exact hsamples selector houtside
  constructor
  case chain =>
    intro c name houtside
    obtain ⟨v, matrices, hv, hmatrices, hshort⟩ := chain_endsOutside_iff.mp houtside
    exact hmatrix name ⟨v, hv, matrices, List.mem_of_getElem? hmatrices, hshort⟩
  case merged => exact fun name houtside => hmatrix name (merged_endsOutside_iff.mp houtside)
  case samples => exact hsamples
  case elementChains =>
    exact fun name e houtside => hcolumn name e (elementChains_endsOutside_iff.mp houtside)
  case leakage =>
    intro query houtside
    obtain ⟨-, -, -, houtputs | ⟨-, hsecrets⟩⟩ := leakage_endsOutside_iff.mp houtside
    · exact hstops _ houtputs
    · exact hstops _ hsecrets

theorem StaysInside.isComplete (h : t.StaysInside) : t.IsComplete :=
  isComplete_iff.mpr ⟨fun name hlacks => h.merged name (merged_endsOutside_iff.mpr hlacks),
    fun name e hlacks => h.elementChains name e (elementChains_endsOutside_iff.mpr hlacks)⟩

/-- Which lookups end out of bounds. Those of a variable do unless each chain has samples of it, and those of
an element also if the samples are narrower than the variable is said to be. A query does if it gets to such a
lookup before it fails, and at no other place. All lookups stay in bounds if and only if the trace is
complete. -/
theorem endsOutside_iff [LawfulSizes α] (t : Trace α) :
    (∀ c name, (t.chain c name).EndsOutside ↔
      ∃ v matrices, t.position? name = some v ∧ t.chains[c]? = some matrices ∧ matrices.length ≤ v) ∧
    (∀ name, (t.merged name).EndsOutside ↔ t.LacksMatrix name) ∧
    (∀ selector, (t.samples selector).EndsOutside ↔ ∃ s, Selector.parse? selector = some s ∧
      (t.LacksMatrix s.name ∨ ∃ e, s.index = some e ∧ t.MergesNarrow s.name e)) ∧
    (∀ name e, (t.elementChains name e).EndsOutside ↔ t.LacksColumn name e) ∧
    (∀ query, (t.leakage query).EndsOutside ↔
      query.secrets ≠ [] ∧ query.outputs ≠ [] ∧ query.params.validate = .ok () ∧
        (t.StopsOutside query.outputs ∨
          (∃ output, t.queriedOutput query.outputs = pure output) ∧ t.StopsOutside query.secrets)) ∧
    (∀ query output secret entry, query.params.validate = .ok () → output.size ≤ 2 ^ 64 →
      reportEntry query output secret = .ok entry →
        Guarded.estimate secret.samples output query.params =
          .ok (estimate (α := α) secret.samples output query.params).1) ∧
    (t.StaysInside ↔ t.IsComplete) :=
  ⟨fun _ _ => chain_endsOutside_iff, fun _ => merged_endsOutside_iff, fun _ => samples_endsOutside_iff,
    fun _ _ => elementChains_endsOutside_iff, fun _ => leakage_endsOutside_iff,
    fun _ _ _ _ => guarded_estimate_of_reportEntry, StaysInside.isComplete, IsComplete.staysInside⟩

/-- A secret that is a number, and that is returned. -/
def returned : TracedVariable := ⟨"x", 1, true, true, false, .secret, true⟩

/-- A chain that has no matrix at all, although there is a variable. -/
def emptyChain : Trace Float := ⟨"m", [returned], [[]], .empty, false⟩

/-- Two draws that differ. -/
def zeroAndOne : Samples Float := ⟨.ofVector [0, 1], true⟩

/-- A chain of two draws. -/
def twoDraws : Trace Float := { emptyChain with chains := [[zeroAndOne.values]] }

/-- How much the variable reveals about itself. -/
def aboutItself : LeakageQuery := ⟨["x"], ["x"], { neighbors := 1, minSamples := 1 }, .mutualInformation⟩

theorem isComplete_twoDraws : twoDraws.IsComplete := by
  intro name v info hv hinfo matrices hmem
  obtain ⟨hlt, -⟩ := List.findIdx?_eq_some_iff_getElem.mp hv
  obtain rfl : v = 0 := Nat.lt_one_iff.mp hlt
  obtain rfl : matrices = [zeroAndOne.values] := List.mem_singleton.mp hmem
  cases hinfo
  exact ⟨_, rfl, Nat.le_refl 1⟩

/-- All lookups of two draws of a variable stay in bounds, but not those of a chain without matrices. -/
theorem endsOutside_twoDraws : twoDraws.StaysInside ∧ (emptyChain.merged "x").EndsOutside ∧
    ¬ emptyChain.StaysInside ∧
    Guarded.estimate zeroAndOne zeroAndOne aboutItself.params =
      .ok (estimate zeroAndOne zeroAndOne aboutItself.params).1 := by
  obtain ⟨-, -, -, -, -, hestimates, hinside⟩ := endsOutside_iff twoDraws
  obtain ⟨-, hmerged, -, -, -, -, -⟩ := endsOutside_iff emptyChain
  have houtside : (emptyChain.merged "x").EndsOutside :=
    (hmerged "x").mpr ⟨0, by decide, [], List.mem_singleton_self _, Nat.le_refl 0⟩
  refine ⟨hinside.mpr isComplete_twoDraws, houtside, fun h => h.merged "x" houtside, ?_⟩
  exact hestimates aboutItself zeroAndOne ⟨"x", 0, 0, zeroAndOne, true⟩ _ rfl (by decide) rfl

/-- A chain without matrices makes all lookups of a variable end out of bounds. -/
theorem emptyChain_endsOutside : (emptyChain.chain 0 "x").EndsOutside ∧
    (emptyChain.merged "x").EndsOutside ∧ (emptyChain.samples "x").EndsOutside ∧
    (emptyChain.elementChains "x" 0).EndsOutside ∧ (emptyChain.leakage aboutItself).EndsOutside := by
  have hlacks : emptyChain.LacksMatrix "x" := ⟨0, by decide, [], List.mem_singleton_self _, Nat.le_refl 0⟩
  have hsamples : (emptyChain.samples "x").EndsOutside :=
    samples_endsOutside_iff.mpr ⟨⟨"x", none⟩, Selector.parse?_name (by decide +kernel), .inl hlacks⟩
  refine ⟨rfl, rfl, hsamples, rfl, leakage_endsOutside_iff.mpr ?_⟩
  exact ⟨by decide, by decide, rfl, .inl ⟨[], "x", [], rfl, List.forall_mem_nil _, hsamples⟩⟩

end Trace

end InfoFlow
