import InfoFlow.Breakdown
import InfoFlow.Proofs.Program.Except

namespace InfoFlow

variable {ε β γ : Type}

/-- The error of the first check that finds one. -/
inductive FirstFault : List (ε → Prop) → ε → Prop where
  | here {check : ε → Prop} {rest : List (ε → Prop)} {e : ε} : check e → FirstFault (check :: rest) e
  | later {check : ε → Prop} {rest : List (ε → Prop)} {e : ε} : (∀ e', ¬ check e') →
      FirstFault rest e → FirstFault (check :: rest) e

/-- No check finds an error. -/
def AllPass (checks : List (ε → Prop)) : Prop := ∀ check ∈ checks, ∀ e, ¬ check e

theorem firstFault_nil {e : ε} : ¬ FirstFault [] e := nofun

theorem firstFault_cons_iff {check : ε → Prop} {rest : List (ε → Prop)} {e : ε} :
    FirstFault (check :: rest) e ↔ check e ∨ (∀ e', ¬ check e') ∧ FirstFault rest e := by
  constructor
  · rintro (he | ⟨hpass, hrest⟩)
    · exact .inl he
    · exact .inr ⟨hpass, hrest⟩
  · rintro (he | ⟨hpass, hrest⟩)
    · exact .here he
    · exact .later hpass hrest

theorem firstFault_singleton_iff {check : ε → Prop} {e : ε} : FirstFault [check] e ↔ check e := by
  simp [firstFault_cons_iff, firstFault_nil]

theorem allPass_cons_iff {check : ε → Prop} {rest : List (ε → Prop)} :
    AllPass (check :: rest) ↔ (∀ e, ¬ check e) ∧ AllPass rest := List.forall_mem_cons

theorem allPass_append_iff {checks rest : List (ε → Prop)} :
    AllPass (checks ++ rest) ↔ AllPass checks ∧ AllPass rest := List.forall_mem_append

theorem allPass_map_iff {xs : List β} {check : β → ε → Prop} :
    AllPass (xs.map check) ↔ ∀ x ∈ xs, ∀ e, ¬ check x e := List.forall_mem_map

theorem allPass_flatMap_iff {xs : List β} {checks : β → List (ε → Prop)} :
    AllPass (xs.flatMap checks) ↔ ∀ x ∈ xs, AllPass (checks x) := by
  simp only [AllPass, List.mem_flatMap]
  exact ⟨fun h x hx check hcheck => h check ⟨x, hx, hcheck⟩,
    fun h check ⟨x, hx, hcheck⟩ => h x hx check hcheck⟩

theorem firstFault_append_iff {checks rest : List (ε → Prop)} {e : ε} :
    FirstFault (checks ++ rest) e ↔ FirstFault checks e ∨ AllPass checks ∧ FirstFault rest e := by
  induction checks with
  | nil => simp [firstFault_nil, AllPass]
  | cons check checks ih =>
    rw [List.cons_append, firstFault_cons_iff, firstFault_cons_iff, allPass_cons_iff, ih]
    tauto

/-- Either some check is the first to find an error, or none finds any. -/
theorem allPass_iff_not_firstFault {checks : List (ε → Prop)} :
    AllPass checks ↔ ∀ e, ¬ FirstFault checks e := by
  induction checks with
  | nil => simp [firstFault_nil, AllPass]
  | cons check checks ih =>
    simp only [allPass_cons_iff, firstFault_cons_iff, ih]
    constructor
    · rintro ⟨hpass, hrest⟩ e (he | ⟨_, he⟩)
      · exact hpass e he
      · exact hrest e he
    · intro h
      have hpass (e : ε) : ¬ check e := fun he => h e (.inl he)
      exact ⟨hpass, fun e he => h e (.inr ⟨hpass, he⟩)⟩

/-- The check, where its errors are one kind of failure. -/
def Reported (check : ε → Prop) : Failure ε → Prop
  | .error e => check e
  | .breakdown _ => False

theorem forall_not_reported_iff {check : ε → Prop} :
    (∀ failure, ¬ Reported check failure) ↔ ∀ e, ¬ check e :=
  ⟨fun h e => h (.error e), fun h failure => by cases failure with
    | error e => exact h e
    | breakdown b => exact not_false⟩

theorem allPass_reported_iff {checks : List (ε → Prop)} :
    AllPass (checks.map Reported) ↔ AllPass checks := by
  simp only [AllPass, List.forall_mem_map, forall_not_reported_iff]

theorem firstFault_reported_iff {checks : List (ε → Prop)} {e : ε} :
    FirstFault (checks.map Reported) (.error e) ↔ FirstFault checks e := by
  induction checks with
  | nil => simp [firstFault_nil]
  | cons check checks ih =>
    rw [List.map_cons, firstFault_cons_iff, firstFault_cons_iff, forall_not_reported_iff, ih]
    rfl

/-- No breakdown is reported. -/
theorem not_firstFault_reported {checks : List (ε → Prop)} {b : Breakdown} :
    ¬ FirstFault (checks.map Reported) (.breakdown b) := by
  induction checks with
  | nil => exact firstFault_nil
  | cons check checks ih =>
    rw [List.map_cons, firstFault_cons_iff]
    rintro (⟨⟨⟩⟩ | ⟨-, h⟩)
    exact ih h

/-- The computation fails with the first error that the checks find, and with no other. -/
def Makes (x : Except ε β) (checks : List (ε → Prop)) : Prop :=
  ∀ e, x = .error e ↔ FirstFault checks e

namespace Makes

variable {x : Except ε β} {f : β → Except ε γ} {checks rest : List (ε → Prop)}

theorem allPass_iff (h : Makes x checks) : AllPass checks ↔ ∃ b, x = .ok b := by
  rw [allPass_iff_not_firstFault]
  simp only [← h _]
  cases x with
  | error e => simp
  | ok b => simp

theorem of_ok {b : β} : Makes (.ok b : Except ε β) [] := fun e => by simp [firstFault_nil]

theorem mapError (h : Makes x checks) : Makes (x.mapError Failure.error) (checks.map Reported) := by
  intro failure
  cases failure with
  | error e =>
    rw [firstFault_reported_iff, ← h e]
    cases x <;> simp [Except.mapError]
  | breakdown b =>
    refine iff_of_false ?_ not_firstFault_reported
    cases x <;> simp [Except.mapError]

theorem of_check {check : ε → Prop} (h : ∀ e, x = .error e ↔ check e) : Makes x [check] :=
  fun e => (h e).trans firstFault_singleton_iff.symm

theorem bind (hx : Makes x checks) (hf : ∀ b, x = .ok b → Makes (f b) rest) :
    Makes (x >>= f) (checks ++ rest) := by
  intro e
  rw [firstFault_append_iff, hx.allPass_iff, ← hx e]
  cases x with
  | error fault => simp [Bind.bind, Except.bind]
  | ok b =>
    have hrest := hf b rfl e
    simpa [Bind.bind, Except.bind] using hrest

/-- A computation whose only answer is not looked at any more. -/
theorem bind_ok (hx : Makes x checks) (hf : ∀ b, ∃ c, f b = .ok c) : Makes (x >>= f) checks := by
  have hall : Makes (x >>= f) (checks ++ []) := hx.bind fun b _ => by
    obtain ⟨c, hc⟩ := hf b
    rw [hc]
    exact of_ok
  rwa [List.append_nil] at hall

theorem foldlM {step : γ → β → Except ε γ} {xs : List β} {c : γ} {checks : β → List (ε → Prop)}
    (hstep : ∀ x ∈ xs, ∀ c, Makes (step c x) (checks x)) :
    Makes (xs.foldlM step c) (xs.flatMap checks) := by
  induction xs generalizing c with
  | nil => exact of_ok
  | cons x xs ih =>
    rw [List.foldlM_cons, List.flatMap_cons]
    refine (hstep x List.mem_cons_self c).bind fun next _ => ih fun y hy => ?_
    exact hstep y (List.mem_cons_of_mem x hy)

theorem mapM {f : β → Except ε γ} {xs : List β} {checks : β → List (ε → Prop)}
    (hf : ∀ x ∈ xs, Makes (f x) (checks x)) : Makes (xs.mapM f) (xs.flatMap checks) := by
  induction xs with
  | nil => exact of_ok
  | cons x xs ih =>
    rw [List.mapM_cons, List.flatMap_cons]
    refine (hf x List.mem_cons_self).bind fun y _ => ?_
    exact (ih fun z hz => hf z (List.mem_cons_of_mem x hz)).bind_ok fun ys => ⟨_, rfl⟩

end Makes

end InfoFlow
