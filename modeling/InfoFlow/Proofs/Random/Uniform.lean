import InfoFlow.Proofs.Random.Always
import InfoFlow.Proofs.Scalar.Exact
import InfoFlow.Random.Uniform

namespace InfoFlow.Random

variable {σ β : Type} [RandomWords σ]

omit [RandomWords σ] in
/-- What is accepted, or given instead after too many rounds. -/
theorem Always.untilAccepted {trial : Random σ (Option β)} {giveUp : β} {P : β → Prop}
    (htrial : trial.Always fun accepted => ∀ b, accepted = some b → P b) (hgiveUp : P giveUp)
    (n : Nat) : (Random.untilAccepted trial giveUp n).Always P := by
  induction n with
  | zero => exact of_pure hgiveUp
  | succ n ih =>
    unfold Random.untilAccepted
    refine bind htrial fun accepted haccepted => ?_
    cases accepted with
    | none => exact ih
    | some b => exact of_pure (haccepted b rfl)

theorem scaledWord_lt {range : Nat} (hrange : 0 < range) (zone : Nat) :
    (scaledWord range zone : Random σ _).Always fun accepted =>
      ∀ n, accepted = some n → n < range := by
  unfold scaledWord
  refine Always.bind_any fun w => Always.of_pure fun n hn => ?_
  split at hn
  · cases hn
    exact Nat.div_lt_of_lt_mul (Nat.mul_lt_mul_of_pos_right w.toNat_lt_size hrange)
  · cases hn

/-- One of the first naturals. -/
theorem below_lt {range : Nat} (hrange : 0 < range) :
    (below range : Random σ Nat).Always fun n => n < range :=
  Always.untilAccepted (scaledWord_lt hrange _) hrange _

/-- An integer of a range that is not that of all words. -/
theorem integerBetween_mem {low high : Int} (hle : low ≤ high) (hwords : high - low + 1 < UInt64.size) :
    (integerBetween low high : Random σ Int).Always fun i => low ≤ i ∧ i ≤ high := by
  unfold integerBetween
  have hrange : (high - low + 1).toNat < UInt64.size := by omega
  simp only [if_pos hrange]
  refine Always.bind (below_lt (by omega)) fun n hn => Always.of_pure ?_
  omega

/-- Where no number is next to another one, a width is not lowered. -/
theorem fitWidth_eq {α : Type} [Scalar α] {overshoots : α → Bool} {width : α}
    (h : Scalar.predecessor width = width) (n : ℕ) : fitWidth overshoots n width = width := by
  induction n with
  | zero => rfl
  | succ n ih =>
    unfold fitWidth
    rw [h, ih, ite_self]

/-- What a range answers to one of the `2 ^ 52` units. -/
def FloatRange.point {α : Type} [Scalar α] (r : FloatRange α) (k : ℕ) : α :=
  Scalar.ofNat k / Scalar.ofNat 4503599627370496 * r.width + r.low

theorem FloatRange.draw_point {α : Type} [Scalar α] (r : FloatRange α) :
    (r.draw : Random σ α).Always fun x => ∃ k < 2 ^ 52, x = r.point k := by
  unfold FloatRange.draw coarseUnit
  refine Always.bind (P := fun u => ∃ k < 2 ^ 52,
    u = (Scalar.ofNat k / Scalar.ofNat 4503599627370496 : α)) ?_ ?_
  · refine Always.bind_any fun w => Always.of_pure ⟨(w >>> 12).toNat, ?_, rfl⟩
    have hword := w.toNat_lt
    rw [UInt64.toNat_shiftRight]
    simp only [UInt64.reduceToNat, Nat.reduceMod, Nat.shiftRight_eq_div_pow]
    omega
  · rintro _ ⟨k, hk, rfl⟩
    exact Always.of_pure ⟨k, hk, rfl⟩

/-- A number between two bounds, if nothing is rounded. -/
theorem closed_point_real {low high : ℝ} (hlt : low < high) {k : ℕ} (hk : k < 2 ^ 52) :
    ∃ y, (FloatRange.closed (.real low) (.real high)).point k = Exact.real y ∧ low ≤ y ∧ y ≤ high := by
  have hlimit : (coarseLimit : Exact) = .real (1 - 1 / 2 ^ 52) := by
    unfold coarseLimit Scalar.epsilon
    rw [Exact.one_eq, Exact.ofNat_eq, Exact.real_div (by norm_num), Exact.real_sub]
    norm_num
  have hwidth : (FloatRange.closed (.real low) (.real high) : FloatRange Exact) =
      ⟨.real low, .real ((high - low) / (1 - 1 / 2 ^ 52))⟩ := by
    unfold FloatRange.closed
    rw [fitWidth_eq (by rfl), hlimit, Exact.real_sub, Exact.real_div (by norm_num)]
  have hunit : (Scalar.ofNat k / Scalar.ofNat 4503599627370496 : Exact) = .real (k / 2 ^ 52) := by
    rw [Exact.ofNat_eq, Exact.ofNat_eq, Exact.real_div (by norm_num)]
    norm_num
  rw [hwidth, FloatRange.point, hunit]
  refine ⟨_, rfl, ?_, ?_⟩
  · have hwide : 0 < high - low := sub_pos.mpr hlt
    have hnonneg : 0 ≤ (k / 2 ^ 52 : ℝ) * ((high - low) / (1 - 1 / 2 ^ 52)) := by
      refine mul_nonneg (by positivity) (div_nonneg hwide.le (by norm_num))
    linarith
  · have hshare : (k / 2 ^ 52 : ℝ) ≤ 1 - 1 / 2 ^ 52 := by
      have hle : (k + 1 : ℝ) ≤ 2 ^ 52 := by exact_mod_cast hk
      rw [div_le_iff₀ (by positivity)]
      linarith
    have hproduct := mul_le_mul_of_nonneg_right hshare
      (div_nonneg (sub_pos.mpr hlt).le (show (0 : ℝ) ≤ 1 - 1 / 2 ^ 52 by norm_num))
    rw [mul_div_cancel₀ _ (by norm_num)] at hproduct
    linarith

theorem closed_draw_mem {low high : ℝ} (hlt : low < high) :
    ((FloatRange.closed (.real low) (.real high)).draw : Random σ Exact).Always fun x =>
      ∃ y, x = .real y ∧ low ≤ y ∧ y ≤ high := by
  refine (FloatRange.draw_point _).mono ?_
  rintro _ ⟨k, hk, rfl⟩
  exact closed_point_real hlt hk

end InfoFlow.Random
