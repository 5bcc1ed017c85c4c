import InfoFlow.Model.Compile
import InfoFlow.Proofs.Program.Faults

namespace InfoFlow

variable {α : Type}

/-- The value has not the width that was declared for the output. -/
def OutputFault (output : Output) (value : Value α) (e : EvaluationError) : Prop :=
  value.length ≠ output.width ∧ e = .outputShape output.name output.width value.length

theorem checkOutput_makes (output : Output) (value : Value α) :
    Makes (Model.checkOutput output value) [OutputFault output value] := by
  refine Makes.of_check fun e => ?_
  unfold Model.checkOutput OutputFault
  split_ifs with hwidth
  · simp [hwidth, eq_comm]
  · simp [hwidth]

variable [Scalar α]

namespace Model

variable {m : Model α} {state : State α}

/-- The transformation returns one value of the declared width for every output. -/
def Works (m : Model α) (state : State α) : Prop :=
  ∃ values, m.transformation (m.argumentValues state) = .ok values ∧
    values.map Value.length = m.outputs.map Output.width

/-- What is wrong with the answer of the transformation. Widths are compared from the first output to
the last, once there is a value for each. -/
inductive EvaluationFault (m : Model α) (state : State α) : EvaluationError → Prop where
  | transformation {reason : String} :
      m.transformation (m.argumentValues state) = .error reason →
      EvaluationFault m state (.transformation reason)
  | outputCount {values : List (Value α)} :
      m.transformation (m.argumentValues state) = .ok values →
      values.length ≠ m.outputs.length →
      EvaluationFault m state (.outputCount m.outputs.length values.length)
  | output {values : List (Value α)} {e : EvaluationError} :
      m.transformation (m.argumentValues state) = .ok values →
      values.length = m.outputs.length →
      FirstFault ((m.outputs.zip values).map fun pair => OutputFault pair.1 pair.2) e →
      EvaluationFault m state e

omit [Scalar α] in
private theorem checkOutputs_makes (outputs : List Output) (values : List (Value α)) :
    Makes ((outputs.zip values).mapM fun (output, value) => checkOutput output value)
      ((outputs.zip values).map fun pair => OutputFault pair.1 pair.2) := by
  rw [List.map_eq_flatMap]
  exact Makes.mapM fun pair _ => checkOutput_makes pair.1 pair.2

/-- An evaluation reports the fault of the transformation's answer. -/
theorem evaluate_eq_error_iff {e : EvaluationError} :
    m.evaluate state = .error e ↔ m.EvaluationFault state e := by
  unfold evaluate
  cases h : m.transformation (m.argumentValues state) with
  | error reason =>
    simp only [Except.error.injEq]
    constructor
    · rintro rfl
      exact .transformation h
    · rintro (h' | ⟨h', _⟩ | ⟨h', _⟩)
      · rw [h] at h'
        exact congrArg _ (Except.error.inj h')
      all_goals
        rw [h] at h'
        cases h'
  | ok values =>
    by_cases hlength : values.length = m.outputs.length
    · simp only [hlength, ne_eq, not_true_eq_false, if_false]
      rw [checkOutputs_makes]
      constructor
      · exact .output h hlength
      · rintro (h' | ⟨h', hcount⟩ | ⟨h', _, hfirst⟩)
        all_goals
          rw [h] at h'
          cases h'
        · exact absurd hlength hcount
        · exact hfirst
    · simp only [hlength, ne_eq, not_false_eq_true, if_true, Except.error.injEq]
      constructor
      · rintro rfl
        exact .outputCount h hlength
      · rintro (h' | ⟨h', hcount⟩ | ⟨h', hequal, _⟩)
        all_goals
          rw [h] at h'
          cases h'
        · rfl
        · exact absurd hequal hlength

omit [Scalar α] in
private theorem checkOutputs_allPass_iff {outputs : List Output} {values : List (Value α)}
    (hlength : values.length = outputs.length) :
    AllPass ((outputs.zip values).map fun pair => OutputFault pair.1 pair.2) ↔
      values.map Value.length = outputs.map Output.width := by
  rw [eq_comm, ← List.forall₂_eq_eq_eq, List.forall₂_map_left_iff, List.forall₂_map_right_iff,
    List.forall₂_iff_zip]
  simp only [AllPass, List.forall_mem_map, OutputFault, not_and, hlength, true_and]
  constructor
  · intro h output value hmem
    by_contra hwide
    exact h _ hmem _ (Ne.symm hwide) rfl
  · intro h pair hmem e hwide
    exact absurd (h hmem).symm hwide

/-- A transformation works at a state if its answer has no fault. -/
theorem works_iff : m.Works state ↔ ∀ e, ¬ m.EvaluationFault state e := by
  constructor
  · rintro ⟨values, hvalues, hwidths⟩ e he
    have hlength : values.length = m.outputs.length := by
      simpa using congrArg List.length hwidths
    rcases he with h | ⟨h, hcount⟩ | ⟨h, _, hfirst⟩
    all_goals
      rw [hvalues] at h
      cases h
    · exact hcount hlength
    · have hpass := (checkOutputs_allPass_iff hlength).mpr hwidths
      exact allPass_iff_not_firstFault.mp hpass _ hfirst
  · intro h
    cases hanswer : m.transformation (m.argumentValues state) with
    | error reason => exact absurd (.transformation hanswer) (h _)
    | ok values =>
      have hlength : values.length = m.outputs.length := by
        by_contra hcount
        exact h _ (.outputCount hanswer hcount)
      refine ⟨values, hanswer, (checkOutputs_allPass_iff hlength).mp ?_⟩
      exact allPass_iff_not_firstFault.mpr fun e he => h e (.output hanswer hlength he)

end Model

namespace Program

variable {m : Model α}

/-- The stream of the trial after some prior draws. -/
def probeStream (m : Model α) : Nat → Xoshiro
  | 0 => Xoshiro.ofSeed probeSeed
  | k + 1 => ((m.samplePrior : Random Xoshiro _).run (probeStream m k)).2

/-- The prior draws of the trial, one after the other. -/
def probeDraw (m : Model α) (k : Nat) : Except (Failure InvalidParameter) (State α) :=
  ((m.samplePrior : Random Xoshiro _).run (probeStream m k)).1

/-- The draws before `k` fail with an error. -/
def FailsBefore (m : Model α) (k : Nat) : Prop := ∀ j < k, ∃ e, probeDraw m j = .error (.error e)

/-- Draw `k` is the first that succeeds. -/
structure IsProbed (m : Model α) (k : Nat) (state : State α) : Prop where
  lt_attempts : k < probeAttempts
  failed_before : FailsBefore m k
  succeeds : probeDraw m k = .ok state

/-- Why the trial of a model fails: the answer of the transformation at the first draw that succeeds,
the last draw, if none does, or a draw that breaks down. -/
inductive ProbeFault (m : Model α) : Failure CompileError → Prop where
  | evaluation {k : Nat} {state : State α} {e : EvaluationError} : IsProbed m k state →
      m.EvaluationFault state e → ProbeFault m (.error (.evaluation e))
  | noDraw {e : InvalidParameter} : FailsBefore m probeAttempts →
      probeDraw m (probeAttempts - 1) = .error (.error e) →
      ProbeFault m (.error (.invalidParameter e))
  | breakdown {k : Nat} {b : Breakdown} : k < probeAttempts → FailsBefore m k →
      probeDraw m k = .error (.breakdown b) → ProbeFault m (.breakdown b)

/-- Draw `k` is the last one of the trial: no further draw is allowed, or it is not made again. -/
structure EndsAt (m : Model α) (k : Nat) : Prop where
  lt_attempts : k < probeAttempts
  failed_before : FailsBefore m k
  last : k + 1 = probeAttempts ∨ ∀ e, probeDraw m k ≠ .error (.error e)

theorem EndsAt.unique {j k : Nat} (hj : EndsAt m j) (hk : EndsAt m k) : j = k := by
  have hnot {j k : Nat} (hj : EndsAt m j) (hk : EndsAt m k) : ¬ j < k := by
    intro hlt
    obtain ⟨e, he⟩ := hk.failed_before j hlt
    have hbound := hk.lt_attempts
    rcases hj.last with hlast | hdone
    · omega
    · exact hdone e he
  exact Nat.le_antisymm (Nat.not_lt.mp (hnot hk hj)) (Nat.not_lt.mp (hnot hj hk))

theorem IsProbed.endsAt {k : Nat} {state : State α} (h : IsProbed m k state) : EndsAt m k where
  lt_attempts := h.lt_attempts
  failed_before := h.failed_before
  last := .inr fun e he => by
    rw [h.succeeds] at he
    cases he

/-- What a trial answers to its last draw. -/
def probeAnswer (m : Model α) :
    Except (Failure InvalidParameter) (State α) → Except (Failure CompileError) Unit
  | .ok state => ((m.evaluate state).mapError (.error ∘ .evaluation)).map fun _ => ()
  | .error failure => .error (failure.map .invalidParameter)

/-- A draw that succeeds is answered by the evaluation. -/
theorem probeAnswer_ok_eq_error_iff {state : State α} {failure : Failure CompileError} :
    probeAnswer m (.ok state) = .error failure ↔
      ∃ e, m.EvaluationFault state e ∧ failure = .error (.evaluation e) := by
  simp only [← Model.evaluate_eq_error_iff, probeAnswer]
  cases m.evaluate state with
  | ok rows => exact iff_of_false nofun fun ⟨_, h, _⟩ => nomatch h
  | error e =>
    constructor
    · rintro ⟨⟩
      exact ⟨e, rfl, rfl⟩
    · rintro ⟨_, ⟨⟩, rfl⟩
      rfl

/-- One attempt of the trial. -/
private theorem probe_succ (m : Model α) (attempts k : Nat) :
    ((probe m (attempts + 1)).run (probeStream m k)).1 =
      match probeDraw m k with
      | .ok state => probeAnswer m (.ok state)
      | .error (.breakdown b) => probeAnswer m (.error (.breakdown b))
      | .error (.error e) =>
        if attempts = 0 then .error (.error (.invalidParameter e))
        else ((probe m attempts).run (probeStream m (k + 1))).1 := by
  change ((match probeDraw m k with
    | .ok state => pure (((m.evaluate state).mapError (.error ∘ .evaluation)).map fun _ => ())
    | .error (.breakdown b) => pure (.error (.breakdown b))
    | .error (.error e) =>
      if attempts = 0 then pure (.error (.error (.invalidParameter e))) else probe m attempts :
      Random Xoshiro (Except (Failure CompileError) Unit)).run (probeStream m (k + 1))).1 = _
  rcases probeDraw m k with (e | b) | state
  · by_cases hlast : attempts = 0
    · simp only [hlast, if_true]
      rfl
    · simp only [hlast, if_false]
  · rfl
  · rfl

/-- What is left of the trial answers to its last draw. -/
private theorem probe_cases (m : Model α) (attempts k : Nat) (hbefore : FailsBefore m k)
    (hattempts : k + attempts + 1 = probeAttempts) :
    ∃ j, EndsAt m j ∧
      ((probe m (attempts + 1)).run (probeStream m k)).1 = probeAnswer m (probeDraw m j) := by
  have hlt : k < probeAttempts := by omega
  induction attempts generalizing k with
  | zero =>
    refine ⟨k, ⟨hlt, hbefore, .inl hattempts⟩, ?_⟩
    rw [probe_succ]
    rcases probeDraw m k with (e | b) | state <;> rfl
  | succ attempts ih =>
    rw [probe_succ]
    rcases hdraw : probeDraw m k with (e | b) | state
    · have hbefore' : FailsBefore m (k + 1) := by
        intro j hj
        rcases Nat.lt_succ_iff_lt_or_eq.mp hj with hlt | rfl
        · exact hbefore j hlt
        · exact ⟨e, hdraw⟩
      exact ih (k + 1) hbefore' (by omega) (by omega)
    · exact ⟨k, ⟨hlt, hbefore, .inr fun e he => nomatch hdraw.symm.trans he⟩, by rw [hdraw]⟩
    · exact ⟨k, ⟨hlt, hbefore, .inr fun e he => nomatch hdraw.symm.trans he⟩, by rw [hdraw]⟩

/-- The trial answers to its last draw. -/
private theorem probe_run (m : Model α) : ∃ k, EndsAt m k ∧
    ((probe m probeAttempts).run (Xoshiro.ofSeed probeSeed)).1 = probeAnswer m (probeDraw m k) :=
  probe_cases m (probeAttempts - 1) 0 (fun j hj => absurd hj (Nat.not_lt_zero j)) rfl

/-- Draws that all fail end with the last one. -/
theorem FailsBefore.endsAt (h : FailsBefore m probeAttempts) : EndsAt m (probeAttempts - 1) where
  lt_attempts := by decide
  failed_before j hj := h j (Nat.lt_of_lt_of_le hj (Nat.sub_le _ _))
  last := .inl rfl

/-- What is wrong with the last draw is what is wrong with the trial. -/
theorem EndsAt.probeFault_iff {k : Nat} (h : EndsAt m k) (failure : Failure CompileError) :
    ProbeFault m failure ↔ probeAnswer m (probeDraw m k) = .error failure := by
  constructor
  · rintro (⟨hprobed, hfault⟩ | ⟨hfailed, hlast⟩ | ⟨hlt, hfailed, hdraw⟩)
    · rw [h.unique hprobed.endsAt, hprobed.succeeds, probeAnswer_ok_eq_error_iff]
      exact ⟨_, hfault, rfl⟩
    · rw [h.unique hfailed.endsAt, hlast]
      rfl
    · rw [h.unique ⟨hlt, hfailed, .inr fun e he => nomatch hdraw.symm.trans he⟩, hdraw]
      rfl
  · rcases hdraw : probeDraw m k with (e | b) | state
    · rintro ⟨⟩
      have hlast : k = probeAttempts - 1 := by
        have hlast := h.last.resolve_right fun hdone => hdone e hdraw
        omega
      subst hlast
      refine .noDraw (fun j hj => ?_) hdraw
      rcases Nat.lt_succ_iff_lt_or_eq.mp (Nat.lt_of_lt_of_eq hj rfl) with hlt | rfl
      · exact h.failed_before j hlt
      · exact ⟨e, hdraw⟩
    · rintro ⟨⟩
      exact .breakdown h.lt_attempts h.failed_before hdraw
    · rw [probeAnswer_ok_eq_error_iff]
      rintro ⟨e, hfault, rfl⟩
      exact .evaluation ⟨h.lt_attempts, h.failed_before, hdraw⟩ hfault

/-- The trial finds one fault at most, and reports it. -/
theorem probe_makes (m : Model α) :
    Makes ((probe m probeAttempts).run (Xoshiro.ofSeed probeSeed)).1 [ProbeFault m] := by
  obtain ⟨k, hends, hrun⟩ := probe_run m
  refine Makes.of_check fun failure => ?_
  rw [hrun]
  exact (hends.probeFault_iff failure).symm

/-- The transformation works at the first of the prior draws that succeeds. -/
def PassesProbe (m : Model α) : Prop := ∃ k state, IsProbed m k state ∧ m.Works state

theorem passesProbe_iff : PassesProbe m ↔ ∀ failure, ¬ ProbeFault m failure := by
  constructor
  · rintro ⟨k, state, hprobed, hworks⟩ failure hfault
    rw [hprobed.endsAt.probeFault_iff, hprobed.succeeds, probeAnswer_ok_eq_error_iff] at hfault
    obtain ⟨e, he, -⟩ := hfault
    exact Model.works_iff.mp hworks e he
  · intro h
    obtain ⟨k, hends, -⟩ := probe_run m
    simp only [hends.probeFault_iff] at h
    rcases hdraw : probeDraw m k with failure | state
    · rw [hdraw] at h
      exact absurd rfl (h _)
    · refine ⟨k, state, ⟨hends.lt_attempts, hends.failed_before, hdraw⟩, ?_⟩
      refine Model.works_iff.mpr fun e he => h (.error (.evaluation e)) ?_
      rw [hdraw, probeAnswer_ok_eq_error_iff]
      exact ⟨e, he, rfl⟩

end Program

end InfoFlow
