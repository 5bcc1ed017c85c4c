import InfoFlow.Proofs.Program.Declared
import InfoFlow.Proofs.Scalar.DoubleWords

namespace InfoFlow

variable {α : Type} [Scalar α]

theorem isFinite_of_checkLiteral {f : Family} {parameter : String} {x : α}
    (h : checkLiteral f parameter x = .ok ()) : Scalar.isFinite x = true := by
  cases hfinite : Scalar.isFinite x with
  | true => rfl
  | false => simp [checkLiteral, hfinite] at h

namespace Distribution

theorem build_eq_ok_iff {f : Family} {values : List α} {weights : Option (List α)}
    {d : Distribution α} : build f values weights = .ok d ↔
      values.length = f.signature.length ∧
      (f ≠ .categorical → ∀ parameter ∈ f.signature.zip values,
        checkLiteral f parameter.1 parameter.2 = .ok ()) ∧
      ofChecked f values weights = .ok d := by
  unfold build
  rw [Except.ite_throw_bind_eq_ok_iff, not_not]
  refine and_congr_right fun _ => ?_
  by_cases hf : f = .categorical
  · simp [hf]
  · rw [if_pos hf, Except.bind_eq_ok_iff]
    simp only [ne_eq, hf, not_false_eq_true, forall_const]
    rw [← Except.forM_eq_ok_iff]
    exact ⟨fun ⟨(), hchecks, h⟩ => ⟨hchecks, h⟩, fun ⟨hchecks, h⟩ => ⟨(), hchecks, h⟩⟩

/-- A distribution is built from finite values, unless it is categorical and built from weights. -/
theorem isFinite_of_build {f : Family} {values : List α} {weights : Option (List α)}
    {d : Distribution α} (h : build f values weights = .ok d) (hf : f ≠ .categorical) {x : α}
    (hx : x ∈ values) : Scalar.isFinite x = true := by
  obtain ⟨hlength, hchecks, _⟩ := build_eq_ok_iff.mp h
  rw [← List.map_snd_zip hlength.le] at hx
  obtain ⟨⟨parameter, _⟩, hmem, rfl⟩ := List.mem_map.mp hx
  exact isFinite_of_checkLiteral (hchecks hf _ hmem)

/-- What is built stores the values themselves, except for numbers of trials and whole bounds, which it
stores as words. -/
theorem ofChecked_cases {f : Family} {values : List α} {d : Distribution α}
    (h : ofChecked f values none = .ok d) :
    (d.family = f ∧ d.parameterValues = values) ∨
    (∃ n a b, f = .betaBinomial ∧ values = [n, a, b] ∧ d = .betaBinomial (Scalar.toUInt64 n) a b) ∨
    (∃ n p, f = .binomial ∧ values = [n, p] ∧ d = .binomial (Scalar.toUInt64 n) p) ∨
    ∃ lower upper, f = .discreteUniform ∧ values = [lower, upper] ∧ ¬ upper < lower ∧
      d = .discreteUniform (Scalar.toInt64 lower) (Scalar.toInt64 upper) := by
  unfold ofChecked at h
  split at h
  all_goals try (cases h; exact .inl ⟨rfl, rfl⟩)
  case h_3 n a b =>
    cases h
    exact .inr (.inl ⟨n, a, b, rfl, rfl, rfl⟩)
  case h_4 n p =>
    cases h
    exact .inr (.inr (.inl ⟨n, p, rfl, rfl, rfl⟩))
  case h_6 lower upper =>
    split at h
    · cases h
    · rename_i hle
      cases h
      exact .inr (.inr (.inr ⟨lower, upper, rfl, rfl, hle, rfl⟩))
  case h_14 mean deviation lower upper =>
    split at h
    · cases h
    · simp only at h
      split at h
      · cases h
      · cases h
        exact .inl ⟨rfl, rfl⟩
  case h_15 lower upper =>
    split at h
    · cases h
    · cases h
      exact .inl ⟨rfl, rfl⟩
  case h_16 => cases h
  case h_18 => cases h

/-- Weights are accepted if they are finite, not negative and do not add up to 0, and divided by their sum. -/
theorem ofWeights_eq_ok_iff {ws : List α} {d : Distribution α} : ofWeights (some ws) = .ok d ↔
    ws ≠ [] ∧ ws.any (fun w => !Scalar.isFinite w || w < 0) = false ∧ ¬ Scalar.sum ws ≤ 0 ∧
      .categorical (ws.map (· / Scalar.sum ws)).toArray = d := by
  unfold ofWeights
  by_cases hne : ws = []
  · simp [hne]
  · cases hany : ws.any fun w => !Scalar.isFinite w || w < 0 <;>
      by_cases hpos : Scalar.sum ws ≤ 0 <;> simp [hne, hany, hpos]

/-- The weights of a categorical distribution are those it was built from, divided by their sum. -/
theorem ofWeights_eq_ok {weights : Option (List α)} {d : Distribution α}
    (h : ofWeights weights = .ok d) :
    ∃ ws, weights = some ws ∧ ws ≠ [] ∧
      d = .categorical (ws.map (· / Scalar.sum ws)).toArray := by
  cases weights with
  | none => cases h
  | some ws =>
    obtain ⟨hne, -, -, rfl⟩ := ofWeights_eq_ok_iff.mp h
    exact ⟨ws, rfl, hne, rfl⟩

theorem family_of_ofChecked {f : Family} {values : List α} {weights : Option (List α)}
    {d : Distribution α} (h : ofChecked f values weights = .ok d) : d.family = f := by
  unfold ofChecked at h
  split at h
  all_goals try (cases h; rfl)
  case h_6 =>
    split at h
    · cases h
    · cases h
      rfl
  case h_14 =>
    split at h
    · cases h
    · simp only at h
      split at h
      · cases h
      · cases h
        rfl
  case h_15 =>
    split at h
    · cases h
    · cases h
      rfl
  case h_16 =>
    obtain ⟨_, _, _, rfl⟩ := ofWeights_eq_ok h
    rfl
  case h_18 => cases h

theorem family_of_build {f : Family} {values : List α} {weights : Option (List α)}
    {d : Distribution α} (h : build f values weights = .ok d) : d.family = f :=
  family_of_ofChecked (build_eq_ok_iff.mp h).2.2

section Words

variable {f : Family} {x : α}

theorem checkLiteral_trials_iff (hf : f = .binomial ∨ f = .betaBinomial) :
    checkLiteral f "n" x = .ok () ↔
      Scalar.isFinite x = true ∧ ¬ x < 1 ∧ Scalar.isInteger x = true := by
  rcases hf with rfl | rfl <;>
    cases hfinite : Scalar.isFinite x <;> by_cases hone : x < 1 <;>
      cases hinteger : Scalar.isInteger x <;>
        simp [checkLiteral, hfinite, hone, hinteger, pure, Except.pure]

theorem checkLiteral_bound_iff {parameter : String} :
    checkLiteral .discreteUniform parameter x = .ok () ↔
      Scalar.isFinite x = true ∧ Scalar.isInteger x = true := by
  cases hfinite : Scalar.isFinite x <;> cases hinteger : Scalar.isInteger x <;>
    simp [checkLiteral, hfinite, hinteger, pure, Except.pure]

variable [LawfulWords α]

/-- A number of trials that is accepted is accepted again as the word it is stored as. -/
theorem checkLiteral_ofUInt64 (hf : f = .binomial ∨ f = .betaBinomial)
    (h : checkLiteral f "n" x = .ok ()) :
    checkLiteral f "n" (Scalar.ofUInt64 (Scalar.toUInt64 x) : α) = .ok () := by
  obtain ⟨hfinite, hone, _⟩ := (checkLiteral_trials_iff hf).mp h
  exact (checkLiteral_trials_iff hf).mpr ⟨LawfulWords.isFinite_ofUInt64 _,
    LawfulWords.not_ofUInt64_lt_one hfinite hone, LawfulWords.isInteger_ofUInt64 _⟩

/-- So is a bound. -/
theorem checkLiteral_ofInt64 {parameter : String} (x : α) :
    checkLiteral .discreteUniform parameter (Scalar.ofInt64 (Scalar.toInt64 x) : α) = .ok () :=
  checkLiteral_bound_iff.mpr ⟨LawfulWords.isFinite_ofInt64 x, LawfulWords.isInteger_ofInt64 x⟩

end Words

/-- Weights are read for a categorical distribution only. -/
theorem ofChecked_congr {f : Family} (hf : f ≠ .categorical) (values : List α)
    (weights : Option (List α)) : ofChecked f values weights = ofChecked f values none := by
  unfold ofChecked
  split <;> first | rfl | exact absurd rfl ‹Family.categorical ≠ .categorical›

theorem build_congr {f : Family} (hf : f ≠ .categorical) (values : List α)
    (weights : Option (List α)) : build f values weights = build f values none := by
  unfold build
  rw [ofChecked_congr hf]

/-- What has been built from some values is built again from the values it reports. -/
theorem build_parameterValues [LawfulWords α] {f : Family} {values : List α} {d : Distribution α}
    (h : build f values none = .ok d) : build d.family d.parameterValues none = .ok d := by
  obtain ⟨_, hchecks, hchecked⟩ := build_eq_ok_iff.mp h
  rcases ofChecked_cases hchecked with ⟨rfl, rfl⟩ | ⟨n, a, b, rfl, rfl, rfl⟩ |
    ⟨n, p, rfl, rfl, rfl⟩ | ⟨lower, upper, rfl, rfl, hle, rfl⟩
  · exact h
  · obtain ⟨hcount, hothers⟩ := List.forall_mem_cons.mp (hchecks (by decide))
    refine build_eq_ok_iff.mpr ⟨rfl, fun _ => List.forall_mem_cons.mpr
      ⟨checkLiteral_ofUInt64 (.inr rfl) hcount, hothers⟩, ?_⟩
    simp [parameterValues, family, ofChecked, LawfulWords.toUInt64_ofUInt64]
  · obtain ⟨hcount, hothers⟩ := List.forall_mem_cons.mp (hchecks (by decide))
    refine build_eq_ok_iff.mpr ⟨rfl, fun _ => List.forall_mem_cons.mpr
      ⟨checkLiteral_ofUInt64 (.inl rfl) hcount, hothers⟩, ?_⟩
    simp [parameterValues, family, ofChecked, LawfulWords.toUInt64_ofUInt64]
  · obtain ⟨hfirst, hothers⟩ := List.forall_mem_cons.mp (hchecks (by decide))
    have hlower := (checkLiteral_bound_iff.mp hfirst).1
    have hupper := (checkLiteral_bound_iff.mp (hothers _ (List.mem_singleton_self _))).1
    refine build_eq_ok_iff.mpr ⟨rfl, fun _ => List.forall_mem_cons.mpr
      ⟨checkLiteral_ofInt64 _, List.forall_mem_cons.mpr ⟨checkLiteral_ofInt64 _, by simp⟩⟩, ?_⟩
    simp [parameterValues, family, ofChecked, LawfulWords.toInt64_ofInt64,
      LawfulWords.not_ofInt64_lt hlower hupper hle]

/-- Weights that pass their checks are normalized by their sum. -/
theorem build_categorical {ws : List α} (hne : ws ≠ [])
    (hfinite : ws.any (fun w => !Scalar.isFinite w || w < 0) = false) (hpos : ¬ Scalar.sum ws ≤ 0) :
    build .categorical [0] (some ws) = .ok (.categorical (ws.map (· / Scalar.sum ws)).toArray) :=
  build_eq_ok_iff.mpr ⟨rfl, fun h => absurd rfl h, ofWeights_eq_ok_iff.mpr ⟨hne, hfinite, hpos, rfl⟩⟩

end Distribution

namespace Variable

theorem literalValues?_map_value (values : List α) :
    literalValues? (values.map .value) = some values := by
  unfold literalValues?
  induction values with
  | nil => rfl
  | cons x values ih =>
    rw [List.map_cons, List.mapM_cons, ih]
    rfl

omit [Scalar α] in
theorem mem_of_literalWeights? {parameters : List (Parameter α)} {ws : List α}
    (h : literalWeights? parameters = some ws) : .weights ws ∈ parameters := by
  obtain ⟨parameter, hparameter, hfound⟩ := List.exists_of_findSome?_eq_some h
  cases parameter with
  | value x => cases hfound
  | reference name => cases hfound
  | weights declared =>
    cases hfound
    exact hparameter

omit [Scalar α] in
theorem literalWeights?_map_value (values : List α) :
    literalWeights? (values.map .value) = none := by
  unfold literalWeights?
  induction values with
  | nil => rfl
  | cons x values ih => rw [List.map_cons, List.findSome?_cons, ih]

variable {d : Distribution α}

/-- A distribution that is built from its own parameter values is declared with them. -/
theorem declare_of_build (h : Distribution.build d.family d.parameterValues none = .ok d)
    (hf : d.family ≠ .categorical) (name : String) :
    declare name d.family (d.parameterValues.map .value) =
      .ok ⟨name, d.family, d.parameterValues.map .value, .scalar, false⟩ := by
  obtain ⟨hlength, hchecks, _⟩ := Distribution.build_eq_ok_iff.mp h
  have hchecked : (d.family.signature.zip (d.parameterValues.map Parameter.value)).forM
      (fun bound => checkParameter d.family bound.1 bound.2) = .ok () := by
    rw [Except.forM_eq_ok_iff, List.zip_map_right, List.forall_mem_map]
    intro parameter hparameter
    simpa [checkParameter, hf] using hchecks hf parameter hparameter
  unfold declare
  simp only [List.length_map, hlength, ne_eq, not_true_eq_false, if_false, hchecked]
  simp [literalDistribution?, literalValues?_map_value, literalWeights?_map_value, h,
    bind, Except.bind, pure, Except.pure]

theorem ofDistribution_eq (h : Distribution.build d.family d.parameterValues none = .ok d)
    (hf : d.family ≠ .categorical) (name : String) (n : Nat) :
    ofDistribution name d n = .ok ⟨name, d.family, d.parameterValues.map .value,
      if 1 < n then .vector n else .scalar, false⟩ := by
  unfold ofDistribution
  rw [declare_of_build h hf]
  by_cases hn : 1 < n
  · have hne : n ≠ 0 := by omega
    simp [hn, hne, withElements, bind, Except.bind]
  · simp [hn, bind, Except.bind, pure, Except.pure]

/-- A variable with such parameters has the distribution. -/
theorem distribution?_of_build (h : Distribution.build d.family d.parameterValues none = .ok d)
    (name : String) (shape : Shape) (isHyper : Bool) :
    (⟨name, d.family, d.parameterValues.map .value, shape, isHyper⟩ : Variable α).distribution? =
      some (.ok d) := by
  simp [distribution?, literalDistribution?, literalValues?_map_value, literalWeights?_map_value, h,
    Except.mapError]

/-- Whatever is built, unless it is categorical, is built again from the values it reports, and is declared
with them as a variable of any number of elements. Words that stand for larger numbers of trials and wider
bounds are no exception. -/
theorem ofDistribution_of_build [LawfulWords α] {f : Family} {values : List α}
    {weights : Option (List α)} (hf : f ≠ .categorical)
    (h : Distribution.build f values weights = .ok d) (name : String) (n : Nat) :
    d.family = f ∧ Distribution.build d.family d.parameterValues none = .ok d ∧
      ∃ v, ofDistribution name d n = .ok v ∧ v.name = name ∧ v.width = max 1 n ∧
        v.distribution? = some (.ok d) := by
  have hfamily := Distribution.family_of_build h
  rw [Distribution.build_congr hf] at h
  have hrebuilt := Distribution.build_parameterValues h
  refine ⟨hfamily, hrebuilt, _, ofDistribution_eq hrebuilt (hfamily ▸ hf) name n, rfl, ?_,
    distribution?_of_build hrebuilt name _ false⟩
  change (if 1 < n then Shape.vector n else .scalar).width = max 1 n
  by_cases hn : 1 < n
  · rw [if_pos hn, max_eq_right hn.le]
    rfl
  · rw [if_neg hn, max_eq_left (not_lt.mp hn)]
    rfl

/-- More trials than a word counts. -/
theorem ofDistribution_manyTrials :
    Distribution.build .binomial [(1e20 : Float), 0.5] none =
        .ok (.binomial 18446744073709551615 0.5) ∧
      ∃ v, ofDistribution "throws" (.binomial 18446744073709551615 (0.5 : Float)) 3 = .ok v ∧
        v.width = 3 ∧ v.distribution? = some (.ok (.binomial 18446744073709551615 0.5)) := by
  have hbuilt : Distribution.build .binomial [(1e20 : Float), 0.5] none =
      .ok (.binomial 18446744073709551615 0.5) := by rfl
  obtain ⟨_, _, v, hdeclared, _, hwidth, hdistribution⟩ :=
    ofDistribution_of_build (by decide) hbuilt "throws" 3
  exact ⟨hbuilt, v, hdeclared, hwidth, hdistribution⟩

variable {ws : List α}

theorem declare_categorical (name : String)
    (h : Distribution.build .categorical [0] (some ws) = .ok d) :
    declare name .categorical [.weights ws] =
      .ok ⟨name, .categorical, [.weights ws], .scalar, false⟩ := by
  unfold declare
  simp [Family.signature, checkParameter, literalDistribution?, literalValues?, literalWeights?, h,
    bind, Except.bind, pure, Except.pure]

theorem distribution?_categorical (name : String) (shape : Shape) (isHyper : Bool)
    (h : Distribution.build .categorical [0] (some ws) = .ok d) :
    (⟨name, .categorical, [.weights ws], shape, isHyper⟩ : Variable α).distribution? =
      some (.ok d) := by
  simp [distribution?, literalDistribution?, literalValues?, literalWeights?, h, Except.mapError]

end Variable

end InfoFlow
