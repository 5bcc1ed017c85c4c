import InfoFlow.Proofs.Information.Finite
import InfoFlow.Proofs.Leakage.Floors
import InfoFlow.Proofs.Leakage.Highest

namespace InfoFlow

variable {α : Type} [Scalar α]

/-- All rows are equal, number by number, as the two zeros are. -/
def Matrix.HasEqualRows (m : Matrix α) : Prop :=
  ∀ row ∈ m.toLists, ∀ other ∈ m.toLists, (row == other) = true

/-- A number from 0 on, and a finite one unless logarithms are not. -/
structure IsScore [RealValued α] (score : α) : Prop where
  isNaN : Scalar.isNaN score = false
  nonneg : 0 ≤ score
  isFinite : LogIsBounded α → Scalar.isFinite score = true

theorem Matrix.HasEqualRows.isConstant {m : Matrix α} (h : m.HasEqualRows) : m.isConstant = true := by
  unfold HasEqualRows at h
  unfold Matrix.isConstant
  cases hrows : m.toLists with
  | nil => rfl
  | cons first rest =>
    rw [hrows] at h
    apply List.all_eq_true.mpr
    intro row hrow
    exact h row hrow first List.mem_cons_self

variable {p : EstimatorParams}

theorem eq_of_checkSizes {secret output : Nat} (h : checkSizes secret output p = .ok ()) :
    secret = output := by
  rw [checkSizes_eq] at h
  split_ifs at h with hne
  exact not_not.mp hne

section Estimate

variable {secret output : Samples α}

theorem estimate_of_hasEqualRows (h : secret.values.HasEqualRows ∨ output.values.HasEqualRows) :
    (estimate secret output p).1 = 0 := by
  have hconstant : (secret.values.isConstant || output.values.isConstant) = true :=
    Bool.or_eq_true_iff.mpr (h.imp Matrix.HasEqualRows.isConstant Matrix.HasEqualRows.isConstant)
  unfold estimate
  rw [if_pos hconstant]

variable [LawfulOrder α] [LawfulQuotients α]

theorem estimate_nonneg : 0 ≤ (estimate secret output p).1 := by
  unfold estimate
  split
  case isTrue => exact Scalar.le_refl LawfulOrder.isNaN_zero
  case isFalse => exact p.units.ofNats_nonneg (Scalar.le_max_right _ LawfulOrder.isNaN_zero)

end Estimate

variable [RealValued α] [LawfulReal α] [LawfulOrder α] [LawfulUnits α] [LawfulQuotients α] [LawfulSizes α]
  [LawfulMagnitudes α] {secret output : Samples α}

/-- Samples and parameters that pass their checks have a score, which is computed without a fault by any
estimator: the one for their kinds or another one that is asked for. Samples are counted in machine words. -/
theorem exists_score (hvalid : p.validate = .ok ())
    (hsizes : checkSizes secret.size output.size p = .ok ()) (hroom : p.neighbors.toNat + 1 < 2 ^ 64)
    (hwords : secret.size < 2 ^ 64) :
    ∃ score, mutualInformation secret output p = .ok score ∧
      Guarded.estimate secret output p = .ok score ∧ IsScore score ∧
      (secret.values.HasEqualRows ∨ output.values.HasEqualRows → score = 0) := by
  have halign : secret.size = output.size := eq_of_checkSizes hsizes
  have hneighbors := EstimatorParams.one_le_neighbors hvalid
  have hpos : 1 ≤ secret.size := by
    have hfloor := EstimatorParams.neighbors_lt_sampleFloor hroom
    have hle := EstimatorParams.sampleFloor_le_of_checkSizes hsizes
    omega
  refine ⟨(estimate secret output p).1, ?_, ?_, ?_, estimate_of_hasEqualRows⟩
  · unfold mutualInformation
    rw [hvalid, Except.ok_bind, hsizes]
    rfl
  · exact Guarded.estimate_eq halign hpos hwords.le hneighbors
  · constructor
    · exact isNaN_estimate secret output p
    · exact estimate_nonneg
    · intro hlog
      exact isFinite_estimate hlog halign hpos hwords.le hneighbors

/-- A label of two samples, and one of a single sample. -/
noncomputable def pairAndOne : Samples Exact := ⟨.ofVector [0, 0, 1], true⟩

/-- As many samples of another side, which are all different. -/
noncomputable def threeReadings : Samples Exact := ⟨.ofVector [0, 0.5, 2], false⟩

/-- As many samples again, of a side that is constant. -/
noncomputable def stuckReadings : Samples Exact := ⟨.ofVector [2, 2, 2], false⟩

theorem hasEqualRows_stuckReadings : stuckReadings.values.HasEqualRows := by
  have hrows : stuckReadings.values.toLists = [[2], [2], [2]] := rfl
  have hbeq : (([2] : List Exact) == [2]) = true := by
    rw [List.cons_beq_cons, Bool.and_eq_true, Exact.beq_iff]
    exact ⟨⟨rfl, nofun⟩, rfl⟩
  intro row hrow other hother
  rw [hrows] at hrow hother
  obtain rfl : row = [2] := by simpa using hrow
  obtain rfl : other = [2] := by simpa using hother
  exact hbeq

/-- One neighbor is enough for a group of two, and the sample with a label of its own is left out. A side
that is constant tells nothing. -/
theorem pairAndOne_score :
    let p : EstimatorParams := { neighbors := 1, minSamples := 2, estimator := .mixed }
    p.validate = .ok () ∧ checkSizes pairAndOne.size threeReadings.size p = .ok () ∧
      p.neighbors.toNat + 1 < 2 ^ 64 ∧ pairAndOne.size < 2 ^ 64 ∧
      (∃ score, mutualInformation pairAndOne threeReadings p = .ok score ∧
        Guarded.estimate pairAndOne threeReadings p = .ok score ∧ 0 ≤ score ∧
        Scalar.isFinite score = true) ∧
      mutualInformation pairAndOne stuckReadings p = .ok 0 := by
  intro p
  have hvalid : p.validate = .ok () := rfl
  have hsizes : checkSizes pairAndOne.size threeReadings.size p = .ok () := rfl
  have hstuck : checkSizes pairAndOne.size stuckReadings.size p = .ok () := rfl
  have hroom : p.neighbors.toNat + 1 < 2 ^ 64 := by decide
  have hwords : pairAndOne.size < 2 ^ 64 := by decide
  obtain ⟨score, hscore, hguarded, his, _⟩ := exists_score hvalid hsizes hroom hwords
  obtain ⟨none, hnone, _, _, hzero⟩ := exists_score hvalid hstuck hroom hwords
  rw [hzero (.inr hasEqualRows_stuckReadings)] at hnone
  exact ⟨hvalid, hsizes, hroom, hwords, ⟨score, hscore, hguarded, his.nonneg,
    his.isFinite Exact.logIsBounded⟩, hnone⟩

end InfoFlow
