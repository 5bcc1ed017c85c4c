import InfoFlow.Proofs.Belief.Candidates
import InfoFlow.Proofs.Leakage.Refusals

namespace InfoFlow

open InfoFlow.Random

/-- The coverage that is reported is smaller than what is asked for. -/
def InsufficientCoverage.IsTruthful (e : InsufficientCoverage) : Prop := e.covered < e.required

/-- Where an error reports a coverage, it is smaller than what is asked for. -/
def BeliefError.IsTruthful : BeliefError → Prop
  | insufficientCoverage e => e.IsTruthful
  | invalidParameter _ => True

variable {α σ : Type} [Scalar α]

namespace ScalarGenerator

variable {g : ScalarGenerator α}

theorem checkReachable_refuses (g : ScalarGenerator α) :
    Refuses g.checkReachable BeliefError.IsTruthful := by
  unfold checkReachable
  dsimp only
  split
  · exact .of_ok
  · rename_i hfew
    refine .of_error ?_
    simpa [BeliefError.IsTruthful, InsufficientCoverage.IsTruthful, insufficient, isAdequate] using hfew

theorem int_refuses (name : String) (range : ValueRange α) (policy : CoveragePolicy α) :
    Refuses (int name range policy) BeliefError.IsTruthful := by
  unfold int
  dsimp only
  split
  · exact .of_error trivial
  · split
    · exact .of_error trivial
    · exact checkReachable_refuses _

theorem float_refuses (name : String) (range : ValueRange α) (policy : CoveragePolicy α) :
    Refuses (float name range policy) BeliefError.IsTruthful :=
  checkReachable_refuses _

theorem withFamilies_refuses (g : ScalarGenerator α) (families : List Family) :
    Refuses (g.withFamilies families) BeliefError.IsTruthful := by
  unfold withFamilies
  dsimp only
  split
  · exact .of_error trivial
  · exact checkReachable_refuses _

theorem withReference_refuses (g : ScalarGenerator α) (reference : Distribution α) :
    Refuses (g.withReference reference) BeliefError.IsTruthful := by
  unfold withReference
  split
  · exact .of_error trivial
  · exact checkReachable_refuses _

variable [RandomWords σ]

/-- A report of a draw: of a coverage below the minimum, or of none where none is asked for. -/
structure IsDrawReport (g : ScalarGenerator α) (e : InsufficientCoverage) : Prop where
  generator_eq : e.generator = g.name
  required_eq : e.required = g.policy.minimum.toNat
  covered_lt : e.covered = 0 ∨ e.covered < e.required

omit [Scalar α] in
theorem IsDrawReport.isTruthful_iff {e : InsufficientCoverage} (h : g.IsDrawReport e) :
    e.IsTruthful ↔ 0 < g.policy.minimum := by
  have hpos : 0 < g.policy.minimum ↔ 0 < e.required := by
    rw [h.required_eq, UInt64.lt_iff_toNat_lt]
    rfl
  rw [hpos, InsufficientCoverage.IsTruthful]
  have hcovered := h.covered_lt
  omega

/-- However many attempts are left, the best coverage so far is below the minimum if anything was drawn. -/
theorem drawFrom_reports (pick : Random σ (Option Family)) (attempts best : ℕ)
    (hbest : best = 0 ∨ best < g.policy.minimum.toNat) :
    (g.drawFrom pick attempts best).Always fun drawn => ∀ e, drawn = .error e → g.IsDrawReport e := by
  have hreport (best : ℕ) (hbest : best = 0 ∨ best < g.policy.minimum.toNat)
      (e : InsufficientCoverage)
      (he : (Except.error (g.insufficient best) : Except _ (Distribution α × ℕ)) = .error e) :
      g.IsDrawReport e := by
    cases he
    exact ⟨rfl, rfl, hbest⟩
  induction attempts generalizing best with
  | zero => exact .of_pure (hreport best hbest)
  | succ attempts ih =>
    unfold drawFrom
    refine Always.bind_any fun picked => ?_
    cases picked with
    | none => exact .of_pure (hreport best hbest)
    | some f =>
      refine Always.bind_any fun drawn => ?_
      cases drawn with
      | none => exact ih best hbest
      | some d =>
        dsimp only
        split
        · exact .of_pure (by rintro _ ⟨⟩)
        · rename_i hfew
          have hcovered : g.coverage d < g.policy.minimum.toNat := by simpa [isAdequate] using hfew
          exact ih _ (.inr (Nat.max_lt.mpr ⟨by omega, hcovered⟩))

theorem draw_reports : (g.draw : Random σ _).Always fun drawn =>
    ∀ e, drawn = .error e → g.IsDrawReport e :=
  drawFrom_reports _ _ _ (.inl rfl)

theorem drawFamily_reports (f : Family) : (g.drawFamily f : Random σ _).Always fun drawn =>
    ∀ e, drawn = .error e → g.IsDrawReport e :=
  drawFrom_reports _ _ _ (.inl rfl)

theorem drawVariable_reports (name : String) (elements : ℕ) :
    (g.drawVariable name elements : Random σ _).Always fun drawn =>
      ∀ e, drawn = .error (.insufficientCoverage e) → g.IsDrawReport e := by
  unfold drawVariable
  refine Always.bind draw_reports fun drawn hdrawn => ?_
  cases drawn with
  | error e =>
    refine .of_pure ?_
    rintro _ ⟨⟩
    exact hdrawn e rfl
  | ok p =>
    dsimp only
    split
    · exact .of_pure (by rintro _ ⟨⟩)
    · exact .of_pure (by rintro _ ⟨⟩)

end ScalarGenerator

namespace ListGenerator

variable [RandomWords σ]

theorem drawElements_reports (g : ScalarGenerator α) (indices : List ℕ) :
    (drawElements g indices : Random σ _).Always fun drawn =>
      ∀ e, drawn = .error (.insufficientCoverage e) → g.IsDrawReport e := by
  induction indices with
  | nil => exact .of_pure (by rintro _ ⟨⟩)
  | cons i rest ih =>
    unfold drawElements
    refine Always.bind (g.drawVariable_reports s!"{g.name}{i}" 1) fun drawn hdrawn => ?_
    cases drawn with
    | error fault =>
      refine .of_pure ?_
      rintro e ⟨⟩
      exact hdrawn e rfl
    | ok v =>
      refine Always.bind ih fun others hothers => ?_
      cases others with
      | error fault =>
        refine .of_pure ?_
        rintro e ⟨⟩
        exact hothers e rfl
      | ok vs => exact .of_pure (by rintro _ ⟨⟩)

omit [Scalar α] [RandomWords σ] in
theorem ofElements_refuses (element : ScalarGenerator α) (length : ListLength) (layout : ListLayout) :
    Refuses (ofElements element length layout) BeliefError.IsTruthful := by
  unfold ofElements
  split
  · exact .of_ok
  · exact .of_error trivial

end ListGenerator

namespace Generator

variable [RandomWords σ]

/-- A candidate that is not drawn for want of coverage is one whose variable is not drawn. -/
theorem drawCandidate_reports (g : Generator α) : (g.drawCandidate : Random σ _).Always fun drawn =>
    ∀ e, drawn = .error (.insufficientCoverage e) → g.element.IsDrawReport e := by
  have hmap {β γ : Type} {f : β → γ} {drawn : Except BeliefError β} {e : InsufficientCoverage}
      (h : drawn.map f = .error (.insufficientCoverage e)) :
      drawn = .error (.insufficientCoverage e) := by
    cases drawn with
    | error fault => exact congrArg _ (Except.error.inj h)
    | ok b => cases h
  cases g with
  | scalar g =>
    refine Always.bind (g.drawVariable_reports g.name 1) fun _ hdrawn => .of_pure fun e he => ?_
    exact hdrawn e (hmap he)
  | list g =>
    refine Always.bind_any fun n => ?_
    cases g.layout with
    | shared =>
      refine Always.bind (g.element.drawVariable_reports g.element.name n) fun _ hdrawn => ?_
      exact .of_pure fun e he => hdrawn e (hmap he)
    | perElement =>
      refine Always.bind (ListGenerator.drawElements_reports g.element (List.range n))
        fun _ hdrawn => ?_
      exact .of_pure fun e he => hdrawn e (hmap he)

/-- Whatever its seed, the sequence of candidates ends with a report of its last draw. -/
theorem candidates_report (g : Generator α) (n : ℕ) {e : InsufficientCoverage}
    (h : .error (.insufficientCoverage e) ∈ g.candidates n) : g.element.IsDrawReport e := by
  have hitems (n : ℕ) : (g.candidatesFrom n : Random Xoshiro _).Always fun items =>
      ∀ e, .error (.insufficientCoverage e) ∈ items → g.element.IsDrawReport e := by
    induction n with
    | zero => exact .of_pure (by rintro _ ⟨⟩)
    | succ n ih =>
      unfold candidatesFrom
      refine Always.bind (drawCandidate_reports g) fun drawn hdrawn => ?_
      cases drawn with
      | error fault => exact .of_pure fun e he => hdrawn e (List.mem_singleton.mp he).symm
      | ok c =>
        refine Always.bind ih fun items hitems => .of_pure fun e he => hitems e ?_
        exact (List.mem_cons.mp he).resolve_left (by rintro ⟨⟩)
  exact hitems n _ e h

end Generator

/-- Too few samples are reported truthfully by estimates and reports, and by a curve if there are too few
in the first place: it reports all samples when no size reaches the floor. Too little coverage is
reported truthfully by constructors and builders, and by draws if any coverage is asked for. -/
theorem insufficiencies_reported [RandomWords σ] :
    (∀ (secret output : Samples α) (p : EstimatorParams),
      Refuses (mutualInformation secret output p) LeakageError.IsTruthful) ∧
    (∀ (t : Trace α) (query : LeakageQuery), (t.leakage query).Refuses LeakageError.IsTruthful) ∧
    (∀ (secret output : Samples α) (p : EstimatorParams) (sizes : List ℕ) (deltas : List α)
        (window : ℕ) (isRelative : Bool) (available required : ℕ),
      leakageCurve secret output p sizes deltas window isRelative =
          .error (.insufficientSamples available required) ↔
        secret.size = output.size ∧ Convergence.AreDeltas deltas ∧ 1 ≤ window ∧
          (∀ s ∈ sizes, min s secret.size < p.sampleFloor.toNat) ∧
          available = secret.size ∧ required = p.sampleFloor.toNat) ∧
    (∀ (name : String) (range : ValueRange α) (policy : CoveragePolicy α),
      Refuses (ScalarGenerator.int name range policy) BeliefError.IsTruthful ∧
      Refuses (ScalarGenerator.float name range policy) BeliefError.IsTruthful) ∧
    (∀ (g : ScalarGenerator α) (families : List Family) (reference : Distribution α),
      Refuses (g.withFamilies families) BeliefError.IsTruthful ∧
      Refuses (g.withReference reference) BeliefError.IsTruthful) ∧
    (∀ (element : ScalarGenerator α) (length : ListLength) (layout : ListLayout),
      Refuses (ListGenerator.ofElements element length layout) BeliefError.IsTruthful) ∧
    (∀ (g : ScalarGenerator α) (f : Family), (g.drawFamily f : Random σ _).Always fun drawn =>
      ∀ e, drawn = .error e → (e.IsTruthful ↔ 0 < g.policy.minimum)) ∧
    (∀ g : Generator α, (g.drawCandidate : Random σ _).Always fun drawn =>
      ∀ e, drawn = .error (.insufficientCoverage e) →
        (e.IsTruthful ↔ 0 < g.element.policy.minimum)) ∧
    ∀ (g : Generator α) (n : ℕ) (e : InsufficientCoverage),
      .error (.insufficientCoverage e) ∈ g.candidates n →
        (e.IsTruthful ↔ 0 < g.element.policy.minimum) :=
  ⟨mutualInformation_refuses, Trace.leakage_refuses,
    fun _ _ _ _ _ _ _ _ _ => leakageCurve_eq_insufficientSamples_iff,
    fun name range policy => ⟨ScalarGenerator.int_refuses name range policy,
      ScalarGenerator.float_refuses name range policy⟩,
    fun g families reference => ⟨g.withFamilies_refuses families, g.withReference_refuses reference⟩,
    ListGenerator.ofElements_refuses,
    fun g f => (g.drawFamily_reports f).mono fun _ h e he => (h e he).isTruthful_iff,
    fun g => g.drawCandidate_reports.mono fun _ h e he => (h e he).isTruthful_iff,
    fun g n _ h => (g.candidates_report n h).isTruthful_iff⟩

/-- A generator that asks for no coverage, and makes no draw. -/
noncomputable def undrawn : ScalarGenerator Exact :=
  ⟨"undrawn", false, ScalarGenerator.realFamilies, ⟨0, 1⟩, ⟨0, 0.5, 0, 100⟩, none, 0⟩

/-- Three samples are refused where two are enough, since the only size asks for one of them; a coverage
of 0 is refused where 0 is enough. -/
theorem enough_refused :
    leakageCurve (α := Exact) ⟨.ofVector [0, 1, 1], true⟩ ⟨.ofVector [0, 1, 1], true⟩
      { neighbors := 1, minSamples := 1 } [1] [1] 1 false = .error (.insufficientSamples 3 2) ∧
    ScalarGenerator.float "undrawn" undrawn.range undrawn.policy = .ok undrawn ∧
    (Generator.scalar undrawn).candidates 1 = [.error (.insufficientCoverage ⟨"undrawn", 0, 0⟩)] ∧
    ¬ (LeakageError.insufficientSamples 3 2).IsTruthful ∧
    ¬ (InsufficientCoverage.mk "undrawn" 0 0).IsTruthful := by
  refine ⟨leakageCurve_eq_insufficientSamples_iff.mpr ⟨rfl, Convergence.areDeltas_one, le_rfl,
    by decide, rfl, rfl⟩, ?_, rfl, Nat.not_lt.mpr (by decide), Nat.not_lt.mpr le_rfl⟩
  exact ScalarGenerator.checkReachable_eq (g := undrawn) (f := .normal) (by decide) (Nat.zero_le _)

end InfoFlow
