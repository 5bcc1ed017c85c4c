import InfoFlow.Proofs.Model.Constants
import InfoFlow.Proofs.Random.Always

namespace InfoFlow.Exact

theorem isFinite_real (x : ℝ) : Scalar.isFinite (real x) = true := isFinite_iff.mpr ⟨x, rfl⟩

theorem checkLiteral_bernoulli {p : ℝ} (hnonneg : 0 ≤ p) (hle : p ≤ 1) :
    checkLiteral .bernoulli "p" (real p) = .ok () := by
  unfold checkLiteral
  simp only [isFinite_real, zero_eq, one_eq, real_le, hnonneg, hle]
  rfl

theorem build_bernoulli {p : ℝ} (hnonneg : 0 ≤ p) (hle : p ≤ 1) :
    Distribution.build .bernoulli [real p] none = .ok (.bernoulli (real p)) := by
  simp only [Distribution.build, Family.signature]
  simp [checkLiteral_bernoulli hnonneg hle, bind, Except.bind, pure, Except.pure,
    Distribution.ofChecked]

/-- A success of probability `p` has the log-density `log p`. -/
theorem lnDensity_bernoulli (p : ℝ) :
    (Distribution.bernoulli (real p)).lnDensity (real 1) = Scalar.log (real p) := by
  have hnan : Scalar.isNaN (real 1) = false := by simp [Scalar.isNaN]
  have hinteger : Scalar.isInteger (real 1) = true := by
    have hfloor : Scalar.floor (real 1) = real 1 := by
      change real (⌊(1 : ℝ)⌋ : ℝ) = real 1
      simp
    have hpos : ¬ (1 : ℝ) < 0 := not_lt.mpr zero_le_one
    simp [Scalar.isInteger, Scalar.fract, Scalar.trunc, hfloor, hpos, zero_eq]
  have hsupport : (Distribution.bernoulli (real p)).support.contains (real 1) = true := by
    simp [Distribution.support, Distribution.family, Support.ofFamily, Support.contains, hinteger,
      zero_eq, one_eq]
  unfold Distribution.lnDensity
  simp [hnan, hsupport, one_eq]

theorem declare_bernoulli (name : String) {p : ℝ} (hnonneg : 0 ≤ p) (hle : p ≤ 1) :
    Variable.declare name .bernoulli [.value (real p)] =
      .ok ⟨name, .bernoulli, [.value (real p)], .scalar, false⟩ := by
  unfold Variable.declare
  simp [Family.signature, Variable.checkParameter, checkLiteral_bernoulli hnonneg hle,
    Variable.literalDistribution?, Variable.literalValues?, Variable.literalWeights?,
    build_bernoulli hnonneg hle, bind, Except.bind, pure, Except.pure]

theorem distribution?_bernoulli (name : String) (isHyper : Bool) {p : ℝ} (hnonneg : 0 ≤ p)
    (hle : p ≤ 1) :
    (⟨name, .bernoulli, [.value (real p)], .scalar, isHyper⟩ : Variable Exact).distribution? =
      some (.ok (.bernoulli (real p))) := by
  simp [Variable.distribution?, Variable.literalDistribution?, Variable.literalValues?,
    Variable.literalWeights?, build_bernoulli hnonneg hle, Except.mapError]

variable {σ : Type} [RandomWords σ] {node : Node Exact} {e : Nat} {s : State Exact}

/-- A node whose only parameter references another one has the distribution for its value. -/
theorem resolveNode_reference {d : Distribution Exact} {j : Nat} {x : Exact}
    (hliteral : node.literal = none) (hbindings : node.bindings = [.node j])
    (hvalue : s.getD j #[] = #[x]) (hbuild : Distribution.build node.family [x] none = .ok d) :
    Model.resolveNode node e s = .ok d := by
  have hresolve : Binding.resolve s e (.node j) = x := by
    simp only [Binding.resolve, hvalue]
    rfl
  unfold Model.resolveNode
  rw [hliteral, hbindings]
  simp only [List.map_cons, List.map_nil, hresolve]
  change (Distribution.build node.family [x] none).mapError _ = _
  rw [hbuild]
  rfl

theorem draw_bernoulli (threshold : UInt64) :
    ((Sampler.bernoulli (some threshold) : Sampler Exact).draw.run : Random σ _).Always fun drawn =>
      ∃ x, drawn = .ok x ∧ (x = real 0 ∨ x = real 1) := by
  unfold Sampler.draw
  rw [Drawing.run_lift_bind]
  refine Random.Always.bind_any fun word => Random.Always.of_pure ⟨_, rfl, ?_⟩
  by_cases hlt : word < threshold
  · exact .inr (by simp [hlt, one_eq])
  · exact .inl (by simp [hlt, zero_eq])

/-- An element whose distribution is a coin is drawn as 0 or 1. -/
theorem drawElements_bernoulli {p : ℝ}
    (h : Model.resolveNode node e s = .ok (.bernoulli (real p))) :
    (Model.drawElements node s [e] : Random σ _).Always fun drawn =>
      ∃ x, drawn = .ok [x] ∧ (x = real 0 ∨ x = real 1) ∧ (p = 1 → x = real 1) := by
  have hsampler : ∃ threshold, Model.elementSampler node e s = .ok (.bernoulli threshold) ∧
      (p = 1 → threshold = none) := by
    unfold Model.elementSampler
    rw [h]
    exact ⟨_, rfl, fun hp => by simp [hp, one_eq]⟩
  obtain ⟨threshold, hsampler, hcertain⟩ := hsampler
  unfold Model.drawElements
  rw [hsampler]
  cases threshold with
  | none => exact Random.Always.of_pure ⟨real 1, by rw [← one_eq], .inr rfl, fun _ => rfl⟩
  | some threshold =>
    refine Random.Always.bind (draw_bernoulli threshold) fun drawn hdrawn => ?_
    obtain ⟨x, rfl, hx⟩ := hdrawn
    exact Random.Always.of_pure ⟨x, rfl, hx, fun hp => by cases hcertain hp⟩

/-- The first node of one element is drawn, and then the others given its value. -/
theorem drawNodes_cons {rest : List (Node Exact)} {P : Exact → Prop}
    {R : Except (Failure InvalidParameter) (State Exact) → Prop} (hwidth : node.width = 1)
    (hdraw : (Model.drawElements node s [0] : Random σ _).Always fun drawn =>
      ∃ x, drawn = .ok [x] ∧ P x)
    (hrest : ∀ x, P x → (Model.drawNodes (s.push #[x]) rest : Random σ _).Always R) :
    (Model.drawNodes s (node :: rest) : Random σ _).Always R := by
  unfold Model.drawNodes
  rw [hwidth]
  refine Random.Always.bind hdraw fun drawn hdrawn => ?_
  obtain ⟨x, rfl, hx⟩ := hdrawn
  exact hrest x hx

/-- A coin is drawn, and then the others given its side. -/
theorem drawNodes_bernoulli_cons {rest : List (Node Exact)} {p : ℝ}
    {R : Except (Failure InvalidParameter) (State Exact) → Prop} (hwidth : node.width = 1)
    (hliteral : node.literal = some (.bernoulli (real p)))
    (hrest : ∀ x : ℝ, (Model.drawNodes (s.push #[real x]) rest : Random σ _).Always R) :
    (Model.drawNodes s (node :: rest) : Random σ _).Always R := by
  have hcoin : Model.resolveNode node 0 s = .ok (.bernoulli (real p)) := by
    unfold Model.resolveNode
    rw [hliteral]
  refine drawNodes_cons (P := fun y => ∃ x : ℝ, y = real x) hwidth
    ((drawElements_bernoulli hcoin).mono ?_) ?_
  · rintro drawn ⟨y, rfl, rfl | rfl, _⟩
    · exact ⟨_, rfl, 0, rfl⟩
    · exact ⟨_, rfl, 1, rfl⟩
  · rintro _ ⟨x, rfl⟩
    exact hrest x

/-- A copy of an earlier node is drawn as that, and then the others. -/
theorem drawNodes_copy_cons {rest : List (Node Exact)} {j : Nat} {x : ℝ}
    {R : Except (Failure InvalidParameter) (State Exact) → Prop} (hwidth : node.width = 1)
    (hliteral : node.literal = none) (hbindings : node.bindings = [.node j])
    (hfamily : node.family = .constant) (hs : s.getD j #[] = #[real x])
    (hrest : (Model.drawNodes (s.push #[real x]) rest : Random σ _).Always R) :
    (Model.drawNodes s (node :: rest) : Random σ _).Always R := by
  have hcopy : Model.resolveNode node 0 s = .ok (.constant (real x)) :=
    resolveNode_reference hliteral hbindings hs (hfamily ▸ Distribution.build_constant (isFinite_real x))
  refine drawNodes_cons (P := fun y => y = real x) hwidth ?_ ?_
  · rw [Model.drawElements_constant (by simpa using hcopy)]
    exact Random.Always.of_pure ⟨_, rfl, rfl⟩
  · rintro _ rfl
    exact hrest

end InfoFlow.Exact
