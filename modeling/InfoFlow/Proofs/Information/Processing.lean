import InfoFlow.Information.Samples
import InfoFlow.Proofs.Information.Entropy
import InfoFlow.Proofs.Information.RowIds
import InfoFlow.Proofs.Scalar.Quotients

namespace InfoFlow

namespace Matrix

private theorem row_beq_iff {x y : List Exact} :
    (x == y) = true ↔ x = y ∧ ∀ a ∈ x, a ≠ .nan := by
  induction x generalizing y with
  | nil => cases y <;> simp
  | cons a x ih =>
    cases y with
    | nil => simp
    | cons b y =>
      rw [List.cons_beq_cons, Bool.and_eq_true, Exact.beq_iff, ih, List.forall_mem_cons]
      unfold Exact.Equal
      rw [List.cons.injEq]
      tauto

theorem isConstant_iff {m : Matrix Exact} :
    m.isConstant = true ↔
      ∀ row ∈ m.toLists, ∀ other ∈ m.toLists, row = other ∧ ∀ a ∈ row, a ≠ .nan := by
  unfold isConstant
  cases m.toLists with
  | nil => simp
  | cons first rest =>
    rw [List.all_eq_true]
    simp only [row_beq_iff]
    constructor
    · intro hall row hrow other hother
      exact ⟨(hall row hrow).1.trans (hall other hother).1.symm, (hall row hrow).2⟩
    · intro hall row hrow
      exact hall row hrow first List.mem_cons_self

end Matrix

namespace Matrix.IsPartOf

variable {part whole : Matrix Exact}

/-- The symbols of a part are read off the symbols of the whole. -/
theorem exists_rowIds (h : part.IsPartOf whole) (hsize : whole.size < UInt64.size) :
    ∃ f : UInt64 → UInt64, part.rowIds = whole.rowIds.map f := by
  obtain ⟨number, hnumber, _⟩ := part.exists_rowIds (h.size_eq ▸ hsize)
  obtain ⟨pick, _, hrows⟩ := h
  obtain ⟨number', hnumber', hinj⟩ := whole.exists_rowIds hsize
  refine ⟨fun id => number (pick (Function.invFunOn number' {row | row ∈ whole.toLists} id)), ?_⟩
  rw [hnumber, hnumber', hrows, List.map_map, List.map_map]
  refine List.map_congr_left fun row hrow => ?_
  have hrow : row ∈ {row | row ∈ whole.toLists} := hrow
  simp only [Function.comp_apply, hinj.leftInvOn_invFunOn hrow]

/-- A part of a constant output is constant. -/
theorem isConstant (h : part.IsPartOf whole) (hconstant : whole.isConstant = true) :
    part.isConstant = true := by
  obtain ⟨pick, hpick, hrows⟩ := h
  rw [isConstant_iff] at hconstant ⊢
  rw [hrows]
  intro row hrow other hother
  obtain ⟨row', hrow', rfl⟩ := List.mem_map.mp hrow
  obtain ⟨other', hother', rfl⟩ := List.mem_map.mp hother
  obtain ⟨hsame, hnumbers⟩ := hconstant row' hrow' other' hother'
  exact ⟨congrArg pick hsame, fun a ha => hnumbers a (hpick row' ha)⟩

end Matrix.IsPartOf

theorem Units.ofNats_le (units : Units) {x y : ℝ} (h : x ≤ y) :
    units.ofNats (Exact.real x) ≤ units.ofNats (Exact.real y) := by
  cases units with
  | nats => exact Exact.real_le.mpr h
  | bits =>
    obtain ⟨ln2, hln2, hreal⟩ := Exact.exists_ln2
    simp only [ofNats, hreal, Exact.real_div hln2.ne', Exact.real_le]
    exact div_le_div_of_nonneg_right h hln2.le

theorem Units.ofNats_nonneg {α : Type} [Scalar α] [LawfulQuotients α] (units : Units) {x : α}
    (h : 0 ≤ x) : 0 ≤ units.ofNats x := by
  cases units with
  | nats => exact h
  | bits => exact LawfulQuotients.div_nonneg h LawfulQuotients.isFinite_ln2 LawfulQuotients.ln2_pos

namespace Samples

theorem length_ids {α : Type} [Scalar α] (s : Samples α) : s.ids.length = s.size :=
  (RowIds.length_assignFrom _ _ _).trans s.values.length_toLists

theorem exists_ids {part whole : Samples Exact} (h : part.values.IsPartOf whole.values)
    (hwords : whole.size < UInt64.size) : ∃ f : UInt64 → UInt64, part.ids = whole.ids.map f :=
  h.exists_rowIds hwords

end Samples

section Estimates

variable {secret part whole : Samples Exact} {p : EstimatorParams}

/-- An estimate from counts, of samples that are not constant on either side. -/
private theorem estimate_eq
    (hdiscrete : p.estimator.resolve secret.isDiscrete whole.isDiscrete = .discrete)
    (hconstant : (secret.values.isConstant || whole.values.isConstant) = false) :
    (estimate secret whole p).1 =
      p.units.ofNats (.real (max (plugInValue secret.ids whole.ids) 0)) := by
  unfold estimate
  rw [hdiscrete, hconstant, ← Exact.max_real, ← Exact.zero_eq, ← plugIn_eq]
  rfl

/-- Nothing is estimated where a side is constant. -/
theorem estimate_constant
    (hconstant : (secret.values.isConstant || whole.values.isConstant) = true) :
    (estimate secret whole p).1 = 0 := by
  unfold estimate
  rw [if_pos hconstant]

/-- The estimate from counts does not grow when the output is cut down to a part of it. -/
theorem estimate_le_of_isPartOf (h : part.values.IsPartOf whole.values)
    (hsizes : secret.size = whole.size) (hwords : whole.size < UInt64.size)
    (hpart : p.estimator.resolve secret.isDiscrete part.isDiscrete = .discrete)
    (hwhole : p.estimator.resolve secret.isDiscrete whole.isDiscrete = .discrete) :
    (estimate secret part p).1 ≤ (estimate secret whole p).1 := by
  cases hconstant : secret.values.isConstant || whole.values.isConstant with
  | true =>
    have hpart : (secret.values.isConstant || part.values.isConstant) = true := by
      rw [Bool.or_eq_true] at hconstant ⊢
      exact hconstant.imp_right h.isConstant
    rw [estimate_constant hconstant, estimate_constant hpart]
    exact Exact.zero_le_zero
  | false =>
    rw [estimate_eq hwhole hconstant]
    cases hconstant' : secret.values.isConstant || part.values.isConstant with
    | true =>
      rw [estimate_constant hconstant']
      exact p.units.ofNats_nonneg (Exact.zero_le_real.mpr (le_max_right _ _))
    | false =>
      rw [estimate_eq hpart hconstant']
      obtain ⟨f, hids⟩ := Samples.exists_ids h hwords
      have hlength : secret.ids.length = whole.ids.length := by
        rw [Samples.length_ids, Samples.length_ids, hsizes]
      rw [hids]
      exact p.units.ofNats_le (max_le_max_right 0 (plugInValue_map_le hlength f))

end Estimates

end InfoFlow
