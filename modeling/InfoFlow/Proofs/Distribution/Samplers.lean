import InfoFlow.Proofs.Distribution.Rebuilt
import InfoFlow.Proofs.Random.Preparation
import InfoFlow.Proofs.Scalar.Integers

namespace InfoFlow

open InfoFlow.Random

variable {α : Type} [Scalar α]

namespace Sampler

/-- Drawing methods without a loop and without a check, so that nothing can break down in them. -/
def isDirect : Sampler α → Bool
  | .bernoulli _ | .cauchy .. | .discreteUniform _ | .exponential _ | .laplace .. | .normal .. => true
  | .uniform _ | .categorical .. | .constant _ => true
  | _ => false

/-- Their draws come to an answer. -/
theorem draw_of_isDirect {σ : Type} [RandomWords σ] {s : Sampler α} (h : s.isDirect = true) :
    (s.draw.run : Random σ _).Always fun drawn => ∃ x, drawn = .ok x := by
  intro words
  cases s with
  | bernoulli threshold => cases threshold <;> exact ⟨_, rfl⟩
  | cauchy | discreteUniform | exponential | laplace | normal => exact ⟨_, rfl⟩
  | uniform | categorical | constant => exact ⟨_, rfl⟩
  | _ => cases h

end Sampler

namespace Distribution

/-- The parameters that drawing methods are defined for, besides what `Sampler.ofDistribution` checks. Gamma
distributions are drawn with the inverse of their rate, those of shape 1 with the inverse of that again. -/
def InDomain : Distribution α → Prop
  | .bernoulli p | .binomial _ p => 0 ≤ p ∧ p ≤ 1
  | .beta a b | .betaBinomial _ a b => 0 < a ∧ 0 < b
  | .cauchy _ scale | .laplace _ scale => 0 < scale
  | .discreteUniform lower upper => lower ≤ upper
  | .exponential rate | .poisson rate => 0 < rate
  | .gamma shape rate => 0 < shape ∧ 0 < 1 / rate ∧ 0 ≤ 1 / (1 / rate)
  | .geometric p => 0 < p ∧ p ≤ 1
  | .normal _ deviation => Scalar.isFinite deviation = true
  | .truncatedNormal mean deviation _ _ => Scalar.isNaN mean = false ∧ 0 < deviation
  | .uniform lower upper => lower < upper
  | .studentT .. | .categorical _ | .constant _ => True

/-- The loops that prepare the drawing method come to an end. -/
def Settles : Distribution α → Prop
  | .geometric p => Scalar.ofFloat (2 / 3) ≤ p ∨ GeometricBlocks.Settles p
  | .uniform lower upper => FloatRange.Settles lower upper
  | .categorical weights => FloatRange.Settles 0 (Scalar.sum weights.toList)
  | _ => True

end Distribution

/-- What literals that have been accepted still need to be drawn from. -/
def Variable.IsDrawable : Family → List (Parameter α) → Prop
  | .uniform, [.value lower, .value upper] => Scalar.isFinite (upper - lower) = true
  | .studentT, [.value freedom, _, _] => 0 < 0.5 * freedom
  | .geometric, [.value p] => (1 - p == 1) = false
  | .categorical, [.weights ws] => Scalar.isFinite (Scalar.sum ws) = true
  | _, _ => True

namespace Variable

variable {name : String} {f : Family} {parameters : List (Parameter α)} {v : Variable α}

/-- Accepted literals are values, or the weights of a categorical distribution. -/
theorem literals_of_declare (h : declare name f parameters = .ok v) (hliteral : v.references = []) :
    (f ≠ .categorical ∧ ∃ values : List α, parameters = values.map .value) ∨
      f = .categorical ∧ ∃ ws, parameters = [.weights ws] := by
  have hdeclared : v.Declared := .declare h
  obtain ⟨rfl, hlength⟩ := declare_eq h
  have hnone (target : String) : .reference target ∉ parameters := by
    intro hmem
    obtain ⟨parameter, hreference⟩ := hdeclared.mem_references_iff.mpr hmem
    rw [hliteral] at hreference
    cases hreference
  have hchecked (binding : Parameter α) (hmem : binding ∈ parameters) :
      ∃ parameter, checkParameter f parameter binding = .ok () := by
    rw [← List.map_snd_zip hlength.le] at hmem
    obtain ⟨⟨parameter, _⟩, hparameter, rfl⟩ := List.mem_map.mp hmem
    exact ⟨parameter, checkParameter_of_declare h hparameter⟩
  by_cases hf : f = .categorical
  · subst hf
    obtain ⟨binding, rfl⟩ := List.length_eq_one_iff.mp hlength
    obtain ⟨parameter, hcheck⟩ := hchecked binding (by simp)
    cases binding with
    | value x => cases hcheck
    | weights ws => exact .inr ⟨rfl, ws, rfl⟩
    | reference target => cases hcheck
  · have hvalues : parameters ∈ Set.range (List.map Parameter.value) := by
      rw [Set.range_list_map]
      intro binding hmem
      obtain ⟨parameter, hcheck⟩ := hchecked binding hmem
      cases binding with
      | value x => exact ⟨x, rfl⟩
      | weights ws => simp [checkParameter, hf] at hcheck
      | reference target => exact absurd hmem (hnone target)
    obtain ⟨values, rfl⟩ := hvalues
    exact .inl ⟨hf, values, rfl⟩

/-- They were built together when they were accepted. -/
theorem build_of_declare_values {values : List α} (h : declare name f (values.map .value) = .ok v) :
    ∃ d, Distribution.build f values none = .ok d ∧ v.distribution? = some (.ok d) := by
  have hbuilt := Declared.distribution?_ne_error (.declare h)
  obtain ⟨rfl, -⟩ := declare_eq h
  simp only [distribution?, literalDistribution?, literalValues?_map_value, literalWeights?_map_value,
    Option.map_some] at hbuilt ⊢
  cases hd : Distribution.build f values none with
  | ok d => exact ⟨d, rfl, rfl⟩
  | error fault =>
    rw [hd] at hbuilt
    exact absurd rfl (hbuilt _)

theorem build_of_declare_weights {ws : List α} (h : declare name .categorical [.weights ws] = .ok v) :
    ∃ d, Distribution.build .categorical [0] (some ws) = .ok d ∧ v.distribution? = some (.ok d) := by
  have hbuilt := Declared.distribution?_ne_error (.declare h)
  obtain ⟨rfl, -⟩ := declare_eq h
  have hdistribution : (⟨name, .categorical, [.weights ws], .scalar, false⟩ : Variable α).distribution? =
      some ((Distribution.build .categorical [0] (some ws)).mapError (·.of name .categorical)) := rfl
  rw [hdistribution] at hbuilt ⊢
  cases hd : Distribution.build .categorical [0] (some ws) with
  | ok d => exact ⟨d, rfl, rfl⟩
  | error fault =>
    rw [hd] at hbuilt
    exact absurd rfl (hbuilt _)

theorem sampler?_eq_ok_iff {d : Distribution α} (h : v.distribution? = some (.ok d)) :
    (∃ s, v.sampler? = some (.ok s)) ↔ ∃ s, Sampler.ofDistribution d = .ok s := by
  unfold sampler?
  rw [h]
  cases hs : Sampler.ofDistribution d with
  | ok s => exact ⟨fun _ => ⟨s, rfl⟩, fun _ => ⟨s, by simp [hs, bind, Except.bind, Except.mapError]⟩⟩
  | error fault => simp [hs, bind, Except.bind, Except.mapError]

theorem sampler?_eq_error {d : Distribution α} {failure : Failure ParameterFault}
    (h : v.distribution? = some (.ok d)) (hfailure : Sampler.ofDistribution d = .error failure) :
    v.sampler? = some (.error (failure.map (·.of v.name v.family))) := by
  unfold sampler?
  simp [h, hfailure, bind, Except.bind, Except.mapError]

end Variable

/-- The one degree of freedom that is not halved would be positive as well. -/
theorem Sampler.studentT_eq_ok_iff {freedom location scale : α}
    (hone : (freedom == 1) = true → 0 < 0.5 * freedom) :
    (∃ s, ofDistribution (.studentT freedom location scale) = .ok s) ↔ 0 < 0.5 * freedom := by
  unfold ofDistribution refused
  by_cases hpos : 0 < 0.5 * freedom
  · simp [hpos]
  · have hne : (freedom == 1) = false := Bool.eq_false_iff.mpr (mt hone hpos)
    simp [hpos, hne]

/-- Geometric distributions have a sampler if blocks of failures are found for them. -/
theorem Sampler.exists_ofDistribution_geometric {p : α} :
    (∃ s, ofDistribution (.geometric p) = .ok s) ↔ ∃ blocks, GeometricBlocks.ofSuccess p = .ok blocks := by
  unfold ofDistribution
  cases h : GeometricBlocks.ofSuccess p <;> simp [h, Except.mapError, Except.map]

section Weights

variable {ws : List α}

theorem foldl_runningSums (ws : List α) (sums : List α) (total : α) (h : sums.headD 0 = total) :
    (ws.foldl (fun (sums, total) w => ((total + w) :: sums, total + w)) (sums, total)).1.headD 0 =
      ws.foldl (· + ·) total := by
  induction ws generalizing sums total with
  | nil => exact h
  | cons w ws ih => exact ih _ _ rfl

theorem getLastD_runningSums (ws : List α) : (Categorical.runningSums ws).getLastD 0 = Scalar.sum ws := by
  unfold Categorical.runningSums
  rw [List.getLastD_eq_getLast?, List.getLast?_reverse]
  have h := foldl_runningSums ws [] 0 rfl
  rwa [List.headD_eq_head?_getD] at h

theorem Sampler.ofWeights_eq (hne : ws ≠ []) (hnonneg : ∀ w ∈ ws, 0 ≤ w) :
    ofWeights ws = if Scalar.sum ws == 0 then refused "p" "All weights are zero in distribution"
      else (FloatRange.halfOpen 0 (Scalar.sum ws)).mapError .breakdown |>.map
        (.categorical (innerSums ws)) := by
  have hvalid : ws.any (fun w => !(0 ≤ w)) = false := by simpa using hnonneg
  unfold ofWeights
  split
  · exact absurd rfl hne
  · rw [hvalid, getLastD_runningSums]
    rfl

theorem Sampler.ofDistribution_categorical (ws : List α) :
    ofDistribution (.categorical ws.toArray) = ofWeights ws := congrArg ofWeights ws.toList_toArray

end Weights

namespace Double

open Float.Model Float.Model.UnpackedFloat

section Parameters

variable {x : Float}

/-- Inverses are not lost: they are at least `2 ^ -1024`. -/
theorem inverse_pos (hfinite : Scalar.isFinite x = true) (hpos : 0 < x) : 0 < 1 / x := by
  have hx := isFinite_iff.mp hfinite
  rw [lt_iff_value rfl hx, unpacked_zero, value_zero] at hpos
  have hrounds := rounds_div (x := 1) (y := x) rfl hx hpos.ne'
  have hone : value (unpacked 1) = 1 := value_one
  have hleast : value (unpacked (Float.ofBits (2 ^ 50))) = 2 ^ (-1024 : ℤ) := by
    change ((2 ^ 50 : ℕ) : ℚ) * 2 ^ (-1074 : ℤ) = _
    rw [Nat.cast_pow, Nat.cast_ofNat, ← zpow_natCast, ← zpow_add₀ two_ne_zero]
    rfl
  have hle : (2 : ℚ) ^ (-1024 : ℤ) ≤ 1 / value (unpacked x) := by
    have hoverflow := (isStored_value x).lt_overflow
    rw [abs_of_pos hpos, overflow] at hoverflow
    rw [le_div_iff₀ hpos, zpow_neg, inv_mul_le_iff₀ (by positivity), mul_one]
    exact hoverflow.le
  rw [hone] at hrounds
  exact Scalar.lt_of_lt_of_le (by decide +kernel) ((hleast ▸ rounds_self rfl).le hrounds hle)

theorem unpacked_of_pos (h : 0 < x) (hfinite : Scalar.isFinite x = false) :
    unpacked x = .infinity .positive := by
  rw [← Bool.not_eq_true, isFinite_iff] at hfinite
  rw [lt_iff, unpacked_zero] at h
  rcases hu : unpacked x with (_ | _) | _ | _ | _ <;>
    simp_all [UnpackedFloat.compare, UnpackedFloat.isFinite]

theorem one_div_nonneg (hpos : 0 < x) : 0 ≤ 1 / x := by
  cases hfinite : Scalar.isFinite x with
  | true => exact LawfulQuotients.div_nonneg (by decide +kernel) hfinite hpos
  | false =>
    have hone : IsAmount 1 := ⟨rfl, value_one ▸ zero_le_one⟩
    exact (div_infinity hone (unpacked_of_pos hpos hfinite)).1.zero_le

theorem half_mul_pos (h : (x == 1) = true) : 0 < 0.5 * x := by
  have hfinite := isFinite_iff.mp (Scalar.isFinite_of_beq h rfl)
  rw [beq_iff_value hfinite rfl, value_one] at h
  have hproduct := rounds_mul (x := 0.5) rfl hfinite
  rw [h, value_half, mul_one] at hproduct
  obtain ⟨hproductfinite, hhalf⟩ := hproduct.value_eq_of_isStored (value_half ▸ isStored_value 0.5)
  rw [lt_iff_value rfl hproductfinite, hhalf, unpacked_zero, value_zero]
  norm_num

end Parameters

section Weights

variable {ws : List Float}

theorem isAmount_of_valid (h : ws.any (fun w => !Scalar.isFinite w || w < 0) = false) :
    ∀ w ∈ ws, IsAmount w := by
  intro w hw
  have hvalid := List.any_eq_false.mp h w hw
  simp only [Bool.or_eq_true, Bool.not_eq_true', decide_eq_true_eq, not_or, Bool.not_eq_false] at hvalid
  exact isAmount_of_not_lt hvalid.1 hvalid.2

/-- Weights are lost if they are divided by a sum that overflows. -/
theorem ofWeights_of_infinite (hne : ws ≠ []) (hamounts : ∀ w ∈ ws, IsAmount w)
    (hsum : unpacked (Scalar.sum ws) = .infinity .positive) :
    Sampler.ofWeights (ws.map (· / Scalar.sum ws)) =
      .error (.error ⟨"p", "All weights are zero in distribution"⟩) := by
  have hlost : ∀ p ∈ ws.map (· / Scalar.sum ws), IsAmount p ∧ value (unpacked p) = 0 :=
    List.forall_mem_map.mpr fun w hw => div_infinity (hamounts w hw) hsum
  obtain ⟨hfinite, hzero⟩ := value_sum_eq_zero (fun p hp => (hlost p hp).1) fun p hp => (hlost p hp).2
  have hbeq : (Scalar.sum (ws.map (· / Scalar.sum ws)) == 0) = true := (beq_iff_value hfinite rfl).mpr hzero
  rw [Sampler.ofWeights_eq (List.map_eq_nil_iff.not.mpr hne) fun p hp => (hlost p hp).1.zero_le, if_pos hbeq]
  rfl

theorem halfOpen_zero {total : Float} (htotal : IsAmount total) (hpos : 0 < value (unpacked total)) :
    (∃ range, FloatRange.halfOpen 0 total = .ok range) ∧ FloatRange.Settles 0 total := by
  have hdifference := rounds_sub htotal.isFinite (y := 0) rfl
  rw [unpacked_zero, value_zero, sub_zero] at hdifference
  have hwidth := isFinite_iff.mpr (hdifference.value_eq_of_isStored (isStored_value total)).1
  have hlt : 0 < total := (lt_iff_value rfl htotal.isFinite).mpr hpos
  exact ⟨FloatRange.exists_halfOpen hlt hwidth, settles_of_lt rfl htotal.isFinite hlt hwidth⟩

/-- Divided by a sum that does not overflow, they are not all lost, and add up to a finite number. -/
theorem ofWeights_of_finite (hne : ws ≠ []) (hamounts : ∀ w ∈ ws, IsAmount w)
    (hfinite : Scalar.isFinite (Scalar.sum ws) = true) (hpos : 0 < value (unpacked (Scalar.sum ws))) :
    (∃ s, Sampler.ofWeights (ws.map (· / Scalar.sum ws)) = .ok s) ∧
      FloatRange.Settles 0 (Scalar.sum (ws.map (· / Scalar.sum ws))) := by
  obtain ⟨hparts, htotal, htotalpos⟩ := isAmount_sum_div hamounts hfinite hpos
  have hbeq : ¬ (Scalar.sum (ws.map (· / Scalar.sum ws)) == 0) = true := by
    rw [beq_iff_value htotal.isFinite rfl]
    exact htotalpos.ne'
  obtain ⟨⟨range, hrange⟩, hsettles⟩ := halfOpen_zero htotal htotalpos
  rw [Sampler.ofWeights_eq (List.map_eq_nil_iff.not.mpr hne) fun p hp => (hparts p hp).zero_le,
    if_neg hbeq, hrange]
  exact ⟨⟨_, rfl⟩, hsettles⟩

end Weights

end Double

namespace Distribution

section Domain

variable {x : α} {infinite wrong : ParameterFault}

theorem check_eq_ok_iff {p : Prop} [Decidable p] : (if !Scalar.isFinite x then Except.error infinite
    else if p then Except.error wrong else pure ()) = .ok () ↔ Scalar.isFinite x = true ∧ ¬ p := by
  cases hfinite : Scalar.isFinite x <;> by_cases hp : p <;> simp [hp, pure, Except.pure]

theorem pos_of_check [LawfulScalar α] [LawfulOrder α]
    (h : (if !Scalar.isFinite x then Except.error infinite
      else if x ≤ 0 then Except.error wrong else pure ()) = .ok ()) : 0 < x := by
  obtain ⟨hfinite, hnot⟩ := check_eq_ok_iff.mp h
  exact Scalar.lt_of_not_le (Scalar.isFinite_iff.mp hfinite).1 LawfulOrder.isNaN_zero hnot

theorem unit_of_check (h : (if !Scalar.isFinite x then Except.error infinite
      else if !(0 ≤ x && x ≤ 1) then Except.error wrong else pure ()) = .ok ()) : 0 ≤ x ∧ x ≤ 1 := by
  simpa using (check_eq_ok_iff.mp h).2

theorem positiveUnit_of_check (h : (if !Scalar.isFinite x then Except.error infinite
      else if !(0 < x && x ≤ 1) then Except.error wrong else pure ()) = .ok ()) : 0 < x ∧ x ≤ 1 := by
  simpa using (check_eq_ok_iff.mp h).2

end Domain

section Built

variable {f : Family} {values : List Float} {d : Distribution Float}

theorem ofChecked_discreteUniform {lower upper : Float} {low high : Int64}
    (h : ofChecked .discreteUniform [lower, upper] none = .ok (.discreteUniform low high)) :
    ¬ upper < lower ∧ Scalar.toInt64 lower = low ∧ Scalar.toInt64 upper = high := by
  by_cases hlt : upper < lower
  · simp [ofChecked, hlt] at h
  · simpa [ofChecked, hlt] using h

theorem ofChecked_uniform {lower upper : Float}
    (h : ofChecked .uniform [lower, upper] none = .ok d) : ¬ upper ≤ lower := by
  intro hle
  simp [ofChecked, hle] at h

/-- Drawing methods are defined for whatever is built. -/
theorem inDomain_of_build (h : build f values none = .ok d) (hf : f ≠ .categorical) : d.InDomain := by
  rw [← family_of_build h] at hf
  have hrebuilt := build_parameterValues h
  have hfinite (x : Float) (hx : x ∈ d.parameterValues) : Scalar.isFinite x = true :=
    isFinite_of_build hrebuilt hf hx
  obtain ⟨-, hchecks, hchecked⟩ := build_eq_ok_iff.mp hrebuilt
  replace hchecks := hchecks hf
  cases d with
  | bernoulli p => exact unit_of_check (hchecks ("p", p) (.head _))
  | beta a b =>
    exact ⟨pos_of_check (hchecks ("alpha", a) (.head _)),
      pos_of_check (hchecks ("beta", b) (.tail _ (.head _)))⟩
  | betaBinomial n a b =>
    exact ⟨pos_of_check (hchecks ("alpha", a) (.tail _ (.head _))),
      pos_of_check (hchecks ("beta", b) (.tail _ (.tail _ (.head _))))⟩
  | binomial n p => exact unit_of_check (hchecks ("p", p) (.tail _ (.head _)))
  | cauchy location scale => exact pos_of_check (hchecks ("beta", scale) (.tail _ (.head _)))
  | discreteUniform lower upper =>
    obtain ⟨hle, hlower, hupper⟩ := ofChecked_discreteUniform hchecked
    have hl := hfinite (Scalar.ofInt64 lower) (.head _)
    have hu := hfinite (Scalar.ofInt64 upper) (.tail _ (.head _))
    have hmono := LawfulIntegers.toInt64_mono hl hu
      (Scalar.le_of_not_lt (Scalar.isFinite_iff.mp hu).1 (Scalar.isFinite_iff.mp hl).1 hle)
    rw [hlower, hupper] at hmono
    exact Int64.le_iff_toInt_le.mpr hmono
  | exponential rate => exact pos_of_check (hchecks ("lam", rate) (.head _))
  | gamma shape rate =>
    have hrate := pos_of_check (hchecks ("beta", rate) (.tail _ (.head _)))
    have hinverse := Double.inverse_pos (hfinite rate (.tail _ (.head _))) hrate
    exact ⟨pos_of_check (hchecks ("alpha", shape) (.head _)), hinverse, Double.one_div_nonneg hinverse⟩
  | geometric p => exact positiveUnit_of_check (hchecks ("p", p) (.head _))
  | laplace location scale => exact pos_of_check (hchecks ("b", scale) (.tail _ (.head _)))
  | normal mean deviation => exact hfinite deviation (.tail _ (.head _))
  | poisson mean => exact pos_of_check (hchecks ("mu", mean) (.head _))
  | truncatedNormal mean deviation lower upper =>
    exact ⟨(Scalar.isFinite_iff.mp (hfinite mean (.head _))).1,
      pos_of_check (hchecks ("sigma", deviation) (.tail _ (.head _)))⟩
  | uniform lower upper =>
    exact Scalar.lt_of_not_le (Scalar.isFinite_iff.mp (hfinite upper (.tail _ (.head _)))).1
      (Scalar.isFinite_iff.mp (hfinite lower (.head _))).1 (ofChecked_uniform hchecked)
  | studentT | categorical | constant => trivial

theorem uniform_isDrawable_iff {lower upper : Float} (hlower : Scalar.isFinite lower = true)
    (hupper : Scalar.isFinite upper = true) (hlt : lower < upper) :
    (∃ s, Sampler.ofDistribution (.uniform lower upper) = .ok s) ∧ Settles (.uniform lower upper) ↔
      Scalar.isFinite (upper - lower) = true := by
  unfold Sampler.ofDistribution
  cases hwidth : Scalar.isFinite (upper - lower) with
  | true =>
    obtain ⟨range, hrange⟩ := FloatRange.exists_halfOpen hlt hwidth
    have hsettles := Double.settles_of_lt (Double.isFinite_iff.mp hlower) (Double.isFinite_iff.mp hupper)
      hlt hwidth
    exact iff_of_true ⟨⟨.uniform range, by simp only [hrange]; rfl⟩, hsettles⟩ rfl
  | false =>
    simp only [FloatRange.halfOpen_of_overflow hlt hwidth]
    exact iff_of_false (fun ⟨⟨_, hs⟩, _⟩ => nomatch hs) Bool.false_ne_true

/-- Probabilities of two thirds and more count in `1 - p`. -/
theorem geometric_isDrawable_iff {p : Float} (hfinite : Scalar.isFinite p = true) (hp : 0 < p ∧ p ≤ 1) :
    (∃ s, Sampler.ofDistribution (.geometric p) = .ok s) ∧ Settles (.geometric p) ↔
      (1 - p == 1) = false := by
  rw [Sampler.exists_ofDistribution_geometric, GeometricBlocks.exists_ofSuccess_iff]
  have hfinite := Double.isFinite_iff.mp hfinite
  have hpos := (Double.lt_iff_value rfl hfinite).mp hp.1
  have hle := (Double.le_iff_value hfinite rfl).mp hp.2
  rcases Double.settled_cases hfinite hpos (Double.value_one ▸ hle) with ⟨hne, hsettled⟩ | ⟨hone, hnever⟩
  · exact iff_of_true ⟨.inr (hsettled _ (by decide)), .inr ⟨64, hsettled 64 le_rfl⟩⟩ hne
  · rw [hone]
    refine iff_of_false (fun ⟨hblocks, _⟩ => ?_) Bool.noConfusion
    rcases hblocks with hlarge | hsettled
    · have hhalf : (0.5 : Float) ≤ p := LawfulOrder.le_trans (by decide +kernel) hlarge
      rw [Double.le_iff_value rfl hfinite, Double.value_half] at hhalf
      have hne := Double.one_sub_beq_one_of_half_le hfinite hhalf (Double.value_one ▸ hle)
      exact Bool.noConfusion (hone.symm.trans hne)
    · exact hnever _ hsettled

theorem categorical_isDrawable_iff {ws : List Float} (h : build .categorical [0] (some ws) = .ok d) :
    (∃ s, Sampler.ofDistribution d = .ok s) ∧ d.Settles ↔ Scalar.isFinite (Scalar.sum ws) = true := by
  obtain ⟨hne, hvalid, hsum, rfl⟩ := ofWeights_eq_ok_iff.mp (build_eq_ok_iff.mp h).2.2
  have hamounts := Double.isAmount_of_valid hvalid
  change _ ∧ FloatRange.Settles 0 _ ↔ _
  rw [Sampler.ofDistribution_categorical, List.toList_toArray]
  rcases Double.sum_cases hamounts with hinfinite | ⟨htotal, -⟩
  · rw [Double.ofWeights_of_infinite hne hamounts hinfinite, Double.isFinite_iff, hinfinite]
    exact iff_of_false (fun ⟨⟨_, hs⟩, _⟩ => nomatch hs) Bool.false_ne_true
  · have hfinite := Double.isFinite_iff.mpr htotal.isFinite
    rw [Double.le_iff_value htotal.isFinite rfl, not_le] at hsum
    exact iff_of_true (Double.ofWeights_of_finite hne hamounts hfinite hsum) hfinite

/-- Of the other families everything that is built can be drawn from. -/
theorem isDrawable_iff_of_build (h : build f values none = .ok d) (hf : f ≠ .categorical) :
    (∃ s, Sampler.ofDistribution d = .ok s) ∧ d.Settles ↔
      Variable.IsDrawable f (values.map Parameter.value) := by
  have hdomain := inDomain_of_build h hf
  have hfinite (x : Float) (hx : x ∈ values) : Scalar.isFinite x = true := isFinite_of_build h hf hx
  rcases ofChecked_cases (build_eq_ok_iff.mp h).2.2 with ⟨rfl, rfl⟩ | ⟨n, a, b, rfl, rfl, rfl⟩ |
    ⟨n, p, rfl, rfl, rfl⟩ | ⟨lower, upper, rfl, rfl, -, rfl⟩
  · cases d with
    | uniform lower upper =>
      exact uniform_isDrawable_iff (hfinite lower (.head _)) (hfinite upper (.tail _ (.head _))) hdomain
    | studentT freedom location scale =>
      exact (and_iff_left trivial).trans (Sampler.studentT_eq_ok_iff Double.half_mul_pos)
    | geometric p => exact geometric_isDrawable_iff (hfinite p (.head _)) hdomain
    | categorical ws => exact absurd rfl hf
    | _ => exact ⟨fun _ => trivial, fun _ => ⟨⟨_, rfl⟩, trivial⟩⟩
  all_goals exact ⟨fun _ => trivial, fun _ => ⟨⟨_, rfl⟩, trivial⟩⟩

end Built

end Distribution

namespace Variable

variable {name : String} {f : Family} {parameters : List (Parameter Float)} {v : Variable Float}

/-- Variables that are declared with literals have a distribution in the domain of its drawing method. They
have a sampler, and its preparation comes to an end, just if their literals can be drawn from. -/
theorem sampler_of_declare (h : declare name f parameters = .ok v) (hliteral : v.references = []) :
    ∃ d, v.distribution? = some (.ok d) ∧ d.InDomain ∧
      ((∃ s, v.sampler? = some (.ok s)) ∧ d.Settles ↔ IsDrawable f parameters) := by
  rcases literals_of_declare h hliteral with ⟨hf, values, rfl⟩ | ⟨rfl, ws, rfl⟩
  · obtain ⟨d, hbuilt, hdistribution⟩ := build_of_declare_values h
    refine ⟨d, hdistribution, Distribution.inDomain_of_build hbuilt hf, ?_⟩
    rw [sampler?_eq_ok_iff hdistribution]
    exact Distribution.isDrawable_iff_of_build hbuilt hf
  · obtain ⟨d, hbuilt, hdistribution⟩ := build_of_declare_weights h
    obtain ⟨-, -, -, rfl⟩ := Distribution.ofWeights_eq_ok_iff.mp (Distribution.build_eq_ok_iff.mp hbuilt).2.2
    refine ⟨_, hdistribution, trivial, ?_⟩
    rw [sampler?_eq_ok_iff hdistribution]
    exact Distribution.categorical_isDrawable_iff hbuilt

/-- From the least positive weight up to a sum that is almost infinite. -/
def unevenWeights : List Float := [5e-324, 0, 1e308]

theorem declare_unevenWeights : declare "lot" .categorical [.weights unevenWeights] =
    .ok ⟨"lot", .categorical, [.weights unevenWeights], .scalar, false⟩ := by
  refine declare_categorical "lot" (Distribution.build_categorical (List.cons_ne_nil _ _) ?_ ?_)
  · decide +kernel
  · decide +kernel

theorem sampler_unevenWeights : ∃ v : Variable Float,
    declare "lot" .categorical [.weights unevenWeights] = .ok v ∧ v.references = [] ∧
      ∃ d s, v.distribution? = some (.ok d) ∧ v.sampler? = some (.ok s) ∧ d.Settles := by
  obtain ⟨d, hdistribution, -, hdrawable⟩ := sampler_of_declare declare_unevenWeights rfl
  have hfinite : Scalar.isFinite (Scalar.sum unevenWeights) = true := by decide +kernel
  obtain ⟨⟨s, hs⟩, hsettles⟩ := hdrawable.mpr hfinite
  exact ⟨_, declare_unevenWeights, rfl, d, s, hdistribution, hs, hsettles⟩

def overflowingWeights : List Float := [1e308, 1e308]

/-- Weights with an infinite sum are declared, but lost when a sampler is built. -/
theorem no_sampler_overflowingWeights : ∃ v : Variable Float,
    declare "lot" .categorical [.weights overflowingWeights] = .ok v ∧ v.references = [] ∧
      (∃ d, v.distribution? = some (.ok d)) ∧ v.sampler? =
        some (.error (.error ⟨"lot", "Categorical", "p", "All weights are zero in distribution"⟩)) := by
  have hvalid : overflowingWeights.any (fun w => !Scalar.isFinite w || w < 0) = false := by decide +kernel
  have hpos : 0 < Scalar.sum overflowingWeights := by decide +kernel
  have hinfinite : Scalar.isFinite (Scalar.sum overflowingWeights) = false := by decide +kernel
  have hne : overflowingWeights ≠ [] := List.cons_ne_nil _ _
  have hbuilt := Distribution.build_categorical hne hvalid (Scalar.not_le_of_lt hpos)
  have hlost := Double.ofWeights_of_infinite hne (Double.isAmount_of_valid hvalid)
    (Double.unpacked_of_pos hpos hinfinite)
  have hdistribution := distribution?_categorical "lot" .scalar false hbuilt
  have hsampler := sampler?_eq_error hdistribution ((Sampler.ofDistribution_categorical _).trans hlost)
  exact ⟨_, declare_categorical "lot" hbuilt, rfl, ⟨_, hdistribution⟩, hsampler⟩

end Variable

end InfoFlow
