import InfoFlow.Leakage.Report
import InfoFlow.Proofs.Program.Except
import Mathlib.Data.List.Forall2

namespace InfoFlow

namespace Lookup

variable {β γ : Type}

theorem bind_eq_pure_iff {x : Lookup β} {f : β → Lookup γ} {c : γ} :
    x >>= f = pure c ↔ ∃ b, x = pure b ∧ f b = pure c := by
  constructor
  · intro h
    match x with
    | .error .outOfBounds => cases h
    | .ok none => cases h
    | .ok (some b) => exact ⟨b, rfl, h⟩
  · rintro ⟨b, rfl, h⟩
    exact h

theorem pure_eq_pure_iff {b b' : β} : (pure b : Lookup β) = pure b' ↔ b = b' := by
  constructor
  · intro h
    cases h
    rfl
  · rintro rfl
    rfl

theorem optional_eq_pure_iff {x : Option β} {b : β} : optional x = pure b ↔ x = some b := by
  cases x with
  | none => exact iff_of_false nofun nofun
  | some _ => exact pure_eq_pure_iff.trans Option.some_inj.symm

theorem required_eq_pure_iff {x : Option β} {b : β} : required x = pure b ↔ x = some b := by
  cases x with
  | none => exact iff_of_false nofun nofun
  | some _ => exact pure_eq_pure_iff.trans Option.some_inj.symm

end Lookup

namespace Queried

variable {β γ : Type} {b : β}

theorem bind_eq_pure_iff {x : Queried β} {f : β → Queried γ} {c : γ} :
    x >>= f = pure c ↔ ∃ b, x = pure b ∧ f b = pure c := ExceptT.bind_eq_pure_iff

theorem pure_eq_pure_iff {b' : β} : (pure b : Queried β) = pure b' ↔ b = b' := by
  constructor
  · intro h
    cases h
    rfl
  · rintro rfl
    rfl

theorem throw_ne_pure {e : LeakageError} : (throw e : Queried β) ≠ pure b := nofun

theorem ofExcept_eq_pure_iff {e : Except LeakageError β} : ofExcept e = pure b ↔ e = .ok b := by
  constructor
  · intro h
    cases h
    rfl
  · rintro rfl
    rfl

theorem lookup_eq_pure_iff {selector : String} {l : Lookup β} :
    lookup selector l = pure b ↔ l = pure b := by
  constructor
  · intro h
    match l with
    | .error .outOfBounds => cases h
    | .ok none => cases h
    | .ok (some b) =>
      cases h
      rfl
  · rintro rfl
    rfl

theorem mapM_eq_pure_iff {f : β → Queried γ} {xs : List β} {ys : List γ} :
    xs.mapM f = pure ys ↔ List.Forall₂ (fun x y => f x = pure y) xs ys := by
  induction xs generalizing ys with
  | nil =>
    rw [List.mapM_nil, List.forall₂_nil_left_iff, pure_eq_pure_iff, eq_comm]
  | cons x xs ih =>
    rw [List.mapM_cons, bind_eq_pure_iff, List.forall₂_cons_left_iff]
    simp only [bind_eq_pure_iff, ih, pure_eq_pure_iff]
    constructor
    · rintro ⟨y, hy, rest, hrest, rfl⟩
      exact ⟨y, rest, hy, hrest, rfl⟩
    · rintro ⟨y, rest, hy, hrest, rfl⟩
      exact ⟨y, hy, rest, hrest, rfl⟩

end Queried

namespace Trace

variable {α : Type} {t : Trace α}

theorem queriedOutput_eq_pure_iff {outputs : List String} {output : Samples α} :
    t.queriedOutput outputs = pure output ↔ ∃ columns,
      outputs.Forall₂ (fun selector column => t.samples selector = pure column) columns ∧
      Matrix.besideAll? (columns.map (·.1)) = some output.values ∧
      output.isDiscrete = columns.all (·.2) := by
  unfold queriedOutput
  simp only [Queried.bind_eq_pure_iff, Queried.mapM_eq_pure_iff, Queried.lookup_eq_pure_iff]
  refine exists_congr fun columns => and_congr_right fun _ => ?_
  cases Matrix.besideAll? (columns.map (·.1)) with
  | none => exact iff_of_false Queried.throw_ne_pure (by simp)
  | some values =>
    obtain ⟨found, isDiscrete⟩ := output
    simp [Queried.pure_eq_pure_iff, eq_comm]

/-- The samples of a queried secret are those that its selector names. -/
theorem samples_of_queriedSecret {selector : String} {secret : QueriedSecret α}
    (h : t.queriedSecret selector = pure secret) : secret.selector = selector ∧
      t.samples selector = pure (secret.samples.values, secret.samples.isDiscrete) := by
  have h := Queried.lookup_eq_pure_iff.mp h
  obtain ⟨_, _, h⟩ := Lookup.bind_eq_pure_iff.mp h
  obtain ⟨_, _, h⟩ := Lookup.bind_eq_pure_iff.mp h
  obtain ⟨⟨values, isDiscrete⟩, hsamples, h⟩ := Lookup.bind_eq_pure_iff.mp h
  obtain ⟨_, _, h⟩ := Lookup.bind_eq_pure_iff.mp h
  cases h
  exact ⟨rfl, hsamples⟩

theorem leakage_eq_pure_iff [Scalar α] {query : LeakageQuery} {r : LeakageReport α} :
    t.leakage query = pure r ↔ query.secrets ≠ [] ∧ query.outputs ≠ [] ∧
      query.params.validate = .ok () ∧ ∃ output secrets entries,
        t.queriedOutput query.outputs = pure output ∧
        query.secrets.Forall₂ (fun selector secret => t.queriedSecret selector = pure secret)
          secrets ∧
        (secrets.mergeSort isBefore).Forall₂
          (fun secret entry => reportEntry query output secret = .ok entry) entries ∧
        r = ⟨entries, query.outputs, output.size, query.params, query.measure⟩ := by
  unfold leakage
  by_cases hempty : (query.secrets.isEmpty || query.outputs.isEmpty) = true
  · rw [if_pos hempty]
    refine iff_of_false Queried.throw_ne_pure ?_
    simp only [Bool.or_eq_true, List.isEmpty_iff] at hempty
    tauto
  · rw [if_neg hempty]
    simp only [Bool.or_eq_true, List.isEmpty_iff, not_or] at hempty
    simp only [Queried.bind_eq_pure_iff, Queried.mapM_eq_pure_iff, Queried.ofExcept_eq_pure_iff,
      Except.mapM_eq_ok_iff, Queried.pure_eq_pure_iff]
    constructor
    · rintro ⟨⟨⟩, hvalid, output, houtput, secrets, hsecrets, entries, hentries, rfl⟩
      exact ⟨hempty.1, hempty.2, hvalid, output, secrets, entries, houtput, hsecrets, hentries, rfl⟩
    · rintro ⟨_, _, hvalid, output, secrets, entries, houtput, hsecrets, hentries, rfl⟩
      exact ⟨(), hvalid, output, houtput, secrets, hsecrets, entries, hentries, rfl⟩

section Entries

variable [Scalar α] {query : LeakageQuery} {output : Samples α} {secret : QueriedSecret α}
  {entry : ReportEntry α}

/-- An entry is about samples that are aligned with those of the outputs. -/
theorem size_of_reportEntry (h : reportEntry query output secret = .ok entry) :
    secret.samples.size = output.size := by
  obtain ⟨_, hsizes, _⟩ := Except.bind_eq_ok_iff.mp h
  by_contra hne
  unfold checkSizes at hsizes
  rw [if_pos hne] at hsizes
  cases hsizes

theorem entry_of_reportEntry (h : reportEntry query output secret = .ok entry) :
    entry.secret = secret.selector ∧ entry.score = match query.measure with
      | .mutualInformation =>
        if secret.isReachable then (estimate secret.samples output query.params).1 else 0
      | .minEntropy => minEntropyScore secret.samples output query.params.units := by
  obtain ⟨_, _, h⟩ := Except.bind_eq_ok_iff.mp h
  cases hmeasure : query.measure with
  | mutualInformation =>
    cases hreachable : secret.isReachable with
    | true =>
      simp only [hmeasure, hreachable] at h
      cases h
      exact ⟨rfl, rfl⟩
    | false =>
      simp only [hmeasure, hreachable] at h
      cases h
      exact ⟨rfl, rfl⟩
  | minEntropy =>
    simp only [hmeasure] at h
    cases h
    exact ⟨rfl, rfl⟩

/-- The score of a secret is that of an entry which comes from its samples and those of the outputs. -/
theorem score?_of_leakage {r : LeakageReport α}
    (h : t.leakage query = pure r) {selector : String} (hselector : selector ∈ query.secrets) :
    ∃ output secret entry, t.queriedOutput query.outputs = pure output ∧
      r.sampleSize = output.size ∧ t.queriedSecret selector = pure secret ∧
      reportEntry query output secret = .ok entry ∧ r.score? selector = some entry.score := by
  obtain ⟨_, _, _, output, secrets, entries, houtput, hsecrets, hentries, rfl⟩ :=
    leakage_eq_pure_iff.mp h
  have hentry (entry : ReportEntry α) (hmem : entry ∈ entries) : ∃ secret,
      t.queriedSecret entry.secret = pure secret ∧ reportEntry query output secret = .ok entry := by
    obtain ⟨secret, hsecret, hreported⟩ := hentries.exists_of_mem_right hmem
    obtain ⟨asked, _, hqueried⟩ := hsecrets.exists_of_mem_right (List.mem_mergeSort.mp hsecret)
    have hsame : entry.secret = asked :=
      (entry_of_reportEntry hreported).1.trans (samples_of_queriedSecret hqueried).1
    exact ⟨secret, hsame ▸ hqueried, hreported⟩
  have hsome : ∃ entry ∈ entries, entry.secret = selector := by
    obtain ⟨secret, hsecret, hqueried⟩ := hsecrets.exists_of_mem_left hselector
    obtain ⟨entry, hmem, hreported⟩ := hentries.exists_of_mem_left (List.mem_mergeSort.mpr hsecret)
    have hname := (entry_of_reportEntry hreported).1.trans (samples_of_queriedSecret hqueried).1
    exact ⟨entry, hmem, hname⟩
  cases hfound : entries.find? (·.secret == selector) with
  | none =>
    obtain ⟨entry, hmem, rfl⟩ := hsome
    simpa using List.find?_eq_none.mp hfound entry hmem
  | some entry =>
    have hname : entry.secret = selector := by simpa using List.find?_some hfound
    obtain ⟨secret, hqueried, hreported⟩ := hentry entry (List.mem_of_find?_eq_some hfound)
    refine ⟨output, secret, entry, houtput, rfl, hname ▸ hqueried, hreported, ?_⟩
    simp [LeakageReport.score?, hfound]

end Entries

end Trace

end InfoFlow
