import InfoFlow.Proofs.Information.Processing
import InfoFlow.Proofs.Leakage.Queries
import InfoFlow.Proofs.Leakage.Vulnerability
import InfoFlow.Proofs.Program.Selector

namespace InfoFlow

namespace Trace

section Outputs

variable {α : Type} {t : Trace α} {outputs outputs' : List String} {output part whole : Samples α}

/-- A selector that names samples of whole numbers. -/
def IsDiscrete (t : Trace α) (selector : String) : Prop :=
  ∃ values, t.samples selector = pure (values, true)

/-- Mutual information with a secret is estimated from counts: either that is forced, or secret and
outputs are discrete and the estimator is chosen for them. -/
def IsCounted (t : Trace α) (query : LeakageQuery) (secret : String) : Prop :=
  query.params.estimator = .discrete ∨
    query.params.estimator = .auto ∧ t.IsDiscrete secret ∧
      ∀ output ∈ query.outputs, t.IsDiscrete output

theorem isDiscrete_of_queriedOutput (h : t.queriedOutput outputs = pure output)
    (hall : ∀ selector ∈ outputs, t.IsDiscrete selector) : output.isDiscrete = true := by
  obtain ⟨columns, hcolumns, _, hkind⟩ := queriedOutput_eq_pure_iff.mp h
  rw [hkind, List.all_eq_true]
  intro column hcolumn
  obtain ⟨selector, hmem, hsamples⟩ := hcolumns.exists_of_mem_right hcolumn
  obtain ⟨values, hvalues⟩ := hall selector hmem
  have hsame := Lookup.pure_eq_pure_iff.mp (hvalues.symm.trans hsamples)
  exact (congrArg Prod.snd hsame).symm

theorem IsCounted.resolve_eq {query : LeakageQuery} {selector : String} {secret : QueriedSecret α}
    (h : t.IsCounted query selector) (hsecret : t.queriedSecret selector = pure secret)
    (houtput : t.queriedOutput query.outputs = pure output) :
    query.params.estimator.resolve secret.samples.isDiscrete output.isDiscrete = .discrete := by
  rcases h with hforced | ⟨hauto, ⟨values, hvalues⟩, houtputs⟩
  · rw [hforced]
    rfl
  · have hsamples := (samples_of_queriedSecret hsecret).2
    have hsame := Lookup.pure_eq_pure_iff.mp (hvalues.symm.trans hsamples)
    have hkind : secret.samples.isDiscrete = true := (Prod.mk.inj hsame).2.symm
    rw [hauto, hkind, isDiscrete_of_queriedOutput houtput houtputs]
    rfl

theorem IsCounted.of_outputs_subset {query query' : LeakageQuery} {secret : String}
    (h : t.IsCounted query' secret) (hparams : query.params = query'.params)
    (houtputs : query.outputs ⊆ query'.outputs) : t.IsCounted query secret := by
  unfold IsCounted
  rw [hparams]
  exact h.imp_right fun ⟨hauto, hsecret, hall⟩ =>
    ⟨hauto, hsecret, fun output hmem => hall output (houtputs hmem)⟩

/-- Some of the outputs side by side are part of all of them side by side. -/
theorem isPartOf_of_subset (hpart : t.queriedOutput outputs = pure part)
    (hwhole : t.queriedOutput outputs' = pure whole) (hsubset : outputs ⊆ outputs') :
    part.values.IsPartOf whole.values := by
  obtain ⟨columns, hcolumns, hjoined, _⟩ := queriedOutput_eq_pure_iff.mp hpart
  obtain ⟨columns', hcolumns', hjoined', _⟩ := queriedOutput_eq_pure_iff.mp hwhole
  refine .of_subset (List.map_subset _ fun column hcolumn => ?_) hjoined hjoined'
  obtain ⟨selector, hmem, hsamples⟩ := hcolumns.exists_of_mem_right hcolumn
  obtain ⟨column', hcolumn', hsamples'⟩ := hcolumns'.exists_of_mem_left (hsubset hmem)
  rwa [Lookup.pure_eq_pure_iff.mp (hsamples.symm.trans hsamples')]

end Outputs

variable {t : Trace Exact} {query query' : LeakageQuery} {r r' : LeakageReport Exact}

/-- Secrets cannot be told apart better by the symbols of a part of the outputs. -/
theorem minEntropyScore_le_of_isPartOf {secret part whole : Samples Exact}
    (h : part.values.IsPartOf whole.values) (hsizes : secret.size = whole.size)
    (hwords : whole.size < UInt64.size) (units : Units) :
    minEntropyScore secret part units ≤ minEntropyScore secret whole units := by
  obtain ⟨f, hids⟩ := Samples.exists_ids h hwords
  have hlength : secret.ids.length = whole.ids.length := by
    rw [Samples.length_ids, Samples.length_ids, hsizes]
  unfold minEntropyScore
  rw [hids]
  exact Vulnerability.minEntropyLeakage_map_le hlength f units

/-- Of two queries with the same parameters, the one with fewer outputs finds no more leakage about a
secret: neither more min-entropy leakage, nor more mutual information if it is estimated from counts. The
number of samples is a machine word, so that no two different rows get the same number. -/
theorem score_le_of_outputs_subset (h : t.leakage query = pure r) (h' : t.leakage query' = pure r')
    (hparams : query.params = query'.params) (hmeasure : query.measure = query'.measure)
    (houtputs : query.outputs ⊆ query'.outputs) {secret : String}
    (hsecret : secret ∈ query.secrets) (hsecret' : secret ∈ query'.secrets)
    (hcounted : query'.measure = .mutualInformation → t.IsCounted query' secret)
    (hwords : r'.sampleSize < UInt64.size) :
    ∃ score score', r.score? secret = some score ∧ r'.score? secret = some score' ∧
      score ≤ score' := by
  obtain ⟨part, found, entry, hpart, _, hfound, hentry, hscore⟩ := score?_of_leakage h hsecret
  obtain ⟨whole, found', entry', hwhole, hsize, hfound', hentry', hscore'⟩ :=
    score?_of_leakage h' hsecret'
  -- The secret is looked up in the same way for both queries; only the outputs differ.
  obtain rfl : found = found' := Queried.pure_eq_pure_iff.mp (hfound.symm.trans hfound')
  have hparts := isPartOf_of_subset hpart hwhole houtputs
  have hsizes := size_of_reportEntry hentry'
  rw [hsize] at hwords
  refine ⟨_, _, hscore, hscore', ?_⟩
  rw [(entry_of_reportEntry hentry).2, (entry_of_reportEntry hentry').2, hmeasure]
  cases hkind : query'.measure with
  | minEntropy =>
    rw [hparams]
    exact minEntropyScore_le_of_isPartOf hparts hsizes hwords _
  | mutualInformation =>
    have hwhole := (hcounted hkind).resolve_eq hfound hwhole
    have hpart := ((hcounted hkind).of_outputs_subset hparams houtputs).resolve_eq hfound hpart
    cases hreachable : found.isReachable with
    | false => exact Exact.zero_le_zero
    | true =>
      rw [hparams] at hpart ⊢
      exact estimate_le_of_isPartOf hparts hsizes hwords hpart hwhole

section ShownCoin

/-- Two throws of a coin, an output that hides them and one that shows them. -/
noncomputable def twoThrows : Trace Exact where
  modelName := "coin"
  traced := [⟨"coin", 1, true, true, false, .secret, true⟩,
    ⟨"hidden", 1, true, true, false, .output, true⟩, ⟨"shown", 1, true, true, false, .output, true⟩]
  chains := [[.ofVector [0, 1], .ofVector [0, 0], .ofVector [0, 1]]]
  diagnostics := .empty
  isConditioned := false

/-- What some outputs reveal about the coin. -/
def aboutCoin (outputs : List String) : LeakageQuery :=
  ⟨["coin"], outputs, { neighbors := 1, minSamples := 1 }, .mutualInformation⟩

theorem isName_twoThrows : ∀ name ∈ ["coin", "hidden", "shown"],
    Selector.isName name.toList = true := by
  unfold Selector.isName Selector.isNameStart Selector.isNamePart Text.isAlphanumeric
    Text.isAlphabetic Text.isNumeric
  simp only [Text.inRanges_eq]
  decide +kernel

theorem samples_coin : twoThrows.samples "coin" = pure (.ofVector [0, 1], true) := by
  unfold samples
  rw [Selector.parse?_name (isName_twoThrows _ (by simp))]
  rfl

private theorem samples_hidden : twoThrows.samples "hidden" = pure (.ofVector [0, 0], true) := by
  unfold samples
  rw [Selector.parse?_name (isName_twoThrows _ (by simp))]
  rfl

theorem samples_shown : twoThrows.samples "shown" = pure (.ofVector [0, 1], true) := by
  unfold samples
  rw [Selector.parse?_name (isName_twoThrows _ (by simp))]
  rfl

theorem queriedSecret_coin : twoThrows.queriedSecret "coin" =
    pure ⟨"coin", 0, 0, ⟨.ofVector [0, 1], true⟩, true⟩ := by
  unfold queriedSecret
  rw [samples_coin, Selector.parse?_name (isName_twoThrows _ (by simp))]
  rfl

private theorem leakage_aboutCoin {outputs : List String} (hne : outputs ≠ [])
    {output : Samples Exact} (houtput : twoThrows.queriedOutput outputs = pure output)
    (hsize : output.size = 2) : ∃ r, twoThrows.leakage (aboutCoin outputs) = pure r ∧
      r.sampleSize = 2 := by
  have hentry : ∃ entry, reportEntry (aboutCoin outputs) output
      ⟨"coin", 0, 0, ⟨.ofVector [0, 1], true⟩, true⟩ = .ok entry := by
    have hsizes : checkSizes 2 output.size (aboutCoin outputs).params = .ok () := by
      rw [hsize]
      rfl
    exact ⟨_, Except.bind_eq_ok_iff.mpr ⟨(), hsizes, rfl⟩⟩
  obtain ⟨entry, hentry⟩ := hentry
  refine ⟨_, leakage_eq_pure_iff.mpr ⟨by simp [aboutCoin], hne, rfl, output, _, [entry], houtput,
    .cons queriedSecret_coin .nil, ?_, rfl⟩, hsize⟩
  rw [List.mergeSort_singleton]
  exact .cons hentry .nil

/-- Who sees nothing of the coin learns no more about it than who also sees how it fell. -/
theorem twoThrows_score_le : ∃ r r',
    twoThrows.leakage (aboutCoin ["hidden"]) = pure r ∧
      twoThrows.leakage (aboutCoin ["hidden", "shown"]) = pure r' ∧
      twoThrows.IsCounted (aboutCoin ["hidden", "shown"]) "coin" ∧ r'.sampleSize < UInt64.size ∧
      ∃ score score', r.score? "coin" = some score ∧ r'.score? "coin" = some score' ∧
        score ≤ score' := by
  have hhidden : twoThrows.queriedOutput ["hidden"] =
      pure ⟨{ Matrix.ofVector [0, 0] with layout := .byColumn }, true⟩ :=
    queriedOutput_eq_pure_iff.mpr ⟨_, .cons samples_hidden .nil, rfl, rfl⟩
  have hboth : twoThrows.queriedOutput ["hidden", "shown"] =
      pure ⟨⟨2, #[#v[0, 0], #v[0, 1]], .byColumn⟩, true⟩ := by
    refine queriedOutput_eq_pure_iff.mpr
      ⟨_, .cons samples_hidden (.cons samples_shown .nil), ?_, rfl⟩
    simp [Matrix.besideAll?, Matrix.beside?, Matrix.ofVector, Matrix.size]
  obtain ⟨r, hr, _⟩ := leakage_aboutCoin (by simp) hhidden rfl
  obtain ⟨r', hr', hsize⟩ := leakage_aboutCoin (by simp) hboth rfl
  have hcounted : twoThrows.IsCounted (aboutCoin ["hidden", "shown"]) "coin" := by
    refine .inr ⟨rfl, ⟨_, samples_coin⟩, ?_⟩
    simp only [aboutCoin, List.forall_mem_cons]
    exact ⟨⟨_, samples_hidden⟩, ⟨_, samples_shown⟩, by simp⟩
  have hwords : r'.sampleSize < UInt64.size := by
    rw [hsize]
    decide
  exact ⟨r, r', hr, hr', hcounted, hwords, score_le_of_outputs_subset hr hr' rfl rfl
    (by simp [aboutCoin]) (by simp [aboutCoin]) (by simp [aboutCoin]) (fun _ => hcounted) hwords⟩

end ShownCoin

end Trace

end InfoFlow
