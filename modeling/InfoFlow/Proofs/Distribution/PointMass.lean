import InfoFlow.Distribution.Density
import InfoFlow.Proofs.Distribution.Rebuilt
import InfoFlow.Proofs.Scalar.Floor

namespace InfoFlow

variable {α : Type} [Scalar α] {x : α}

theorem checkLiteral_constant (h : Scalar.isFinite x = true) :
    checkLiteral .constant "val" x = .ok () := by
  unfold checkLiteral
  simp only [h]
  rfl

theorem Distribution.build_constant (h : Scalar.isFinite x = true) :
    build .constant [x] none = .ok (.constant x) := by
  refine build_eq_ok_iff.mpr ⟨rfl, fun _ parameter hmem => ?_, rfl⟩
  rw [List.mem_singleton.mp hmem]
  exact checkLiteral_constant h

/-- Every constant that is built has a finite value. -/
theorem Distribution.exists_of_build_constant {values : List α} {weights : Option (List α)}
    {d : Distribution α} (h : build .constant values weights = .ok d) :
    ∃ x, d = .constant x ∧ Scalar.isFinite x = true := by
  obtain ⟨hlength, _, hchecked⟩ := build_eq_ok_iff.mp h
  obtain ⟨x, rfl⟩ := List.length_eq_one_iff.mp hlength
  cases hchecked
  exact ⟨x, rfl, isFinite_of_build h (by decide) (List.mem_singleton_self x)⟩

/-- Every finite number is declared as a constant. -/
theorem Variable.declare_constant (name : String) (h : Scalar.isFinite x = true) :
    declare name .constant [.value x] = .ok ⟨name, .constant, [.value x], .scalar, false⟩ := by
  unfold declare
  simp [Family.signature, checkParameter, checkLiteral_constant h, literalDistribution?,
    literalValues?, literalWeights?, Distribution.build_constant h, bind, Except.bind, pure,
    Except.pure]

theorem Variable.distribution?_constant (name : String) (shape : Shape) (isHyper : Bool)
    (h : Scalar.isFinite x = true) :
    (⟨name, .constant, [.value x], shape, isHyper⟩ : Variable α).distribution? =
      some (.ok (.constant x)) := by
  simp [distribution?, literalDistribution?, literalValues?, literalWeights?,
    Distribution.build_constant h, Except.mapError]

/-- A distribution that has its mass at the whole number above a number, and a density there only if that
is the number itself. -/
structure Distribution.IsMassAbove (d : Distribution α) (x : α) : Prop where
  contains_eq (y : α) : d.support.contains y = (y == x && Scalar.isInteger x)
  lnDensity_eq (y : α) :
    d.lnDensity y = if y == x && Scalar.isInteger x then 0 else -Scalar.infinity
  mass_eq {a b : α} : Scalar.IsGapless a → Scalar.isNaN b = false →
    d.mass a b = if a ≤ Scalar.ceil x ∧ Scalar.ceil x ≤ b then 1 else 0
  quantile_beq {q : α} : 0 < q → q < 1 → (d.quantile q == Scalar.ceil x) = true

namespace Distribution

variable {c y a b q : α}

theorem support_constant : (constant c).support = ⟨c, c, true⟩ := rfl

theorem cdf_constant (hy : Scalar.isNaN y = false) :
    (constant c).cdf y = if y < c then 0 else 1 := by
  change (if Scalar.isNaN y then Scalar.nan else if y < c then (0 : α) else if c ≤ y then 1 else 1) = _
  simp [hy]

variable [LawfulOrder α] [LawfulFloor α]

theorem contains_constant (hc : Scalar.isFinite c = true) (y : α) :
    (constant c).support.contains y = (y == c && Scalar.isInteger c) := by
  have hcontains : (constant c).support.contains y = (y == c && Scalar.isInteger y) := by
    change (decide (c ≤ y) && decide (y ≤ c) && (!true || Scalar.isInteger y)) = _
    have hequal : (y == c) = (decide (c ≤ y) && decide (y ≤ c)) := by
      rw [Bool.eq_iff_iff, LawfulOrder.beq_iff_le_le, Bool.and_eq_true, decide_eq_true_iff,
        decide_eq_true_iff, and_comm]
    rw [hequal]
    rfl
  rw [hcontains]
  cases h : y == c with
  | true => rw [Scalar.isInteger_congr (Scalar.isFinite_of_beq h hc) hc h]
  | false => rfl

theorem lnDensity_constant (hc : Scalar.isFinite c = true) (y : α) :
    (constant c).lnDensity y = if y == c && Scalar.isInteger c then 0 else -Scalar.infinity := by
  unfold lnDensity
  rw [contains_constant hc]
  cases h : y == c with
  | true =>
    have hy := (Scalar.isFinite_iff.mp (Scalar.isFinite_of_beq h hc)).1
    cases Scalar.isInteger c <;> simp [h, hy]
  | false => simp

/-- Bisection finds the value at once, and then takes the whole number above it. -/
theorem quantile_constant (hc : Scalar.isFinite c = true) (hpos : 0 < q) (hlt : q < 1) :
    ((constant c).quantile q == Scalar.ceil c) = true := by
  have hnumber := (Scalar.isFinite_iff.mp hc).1
  have hbracket : (constant c).bracket q = (c, c) := by
    have hinfinite : Scalar.isInfinite c = false := by
      simpa [Scalar.isFinite, hnumber] using hc
    unfold bracket
    simp [support_constant, hinfinite]
  have hbisect : bisect (fun y => (constant c).cdf y < q) halvings c c = c := by
    unfold halvings bisect
    simp [Scalar.isWithinSteps, Scalar.beq_self hc]
  have hdiscrete : (constant c).isDiscrete = true := rfl
  unfold quantile
  rw [if_neg (Scalar.not_le_of_lt hpos), if_neg (Scalar.not_le_of_lt hlt), hbracket]
  simp only [hbisect, hdiscrete, Bool.not_true, Bool.false_eq_true, if_false,
    cdf_constant (LawfulFloor.isNaN_floor hnumber)]
  by_cases hbelow : Scalar.floor c < c
  · rw [if_pos hbelow, if_neg (Scalar.not_le_of_lt hpos)]
    simpa [Scalar.isNaN] using LawfulFloor.isNaN_ceil hc
  · rw [if_neg hbelow, if_pos (Scalar.le_of_lt hlt)]
    have hle := Scalar.le_of_not_lt (LawfulFloor.isNaN_floor hnumber) hnumber hbelow
    have hwhole := (LawfulFloor.le_floor_iff hc hnumber).mp hle
    exact LawfulOrder.beq_iff_le_le.mpr ⟨LawfulOrder.le_trans (LawfulFloor.floor_le hc)
      (LawfulFloor.le_ceil hc), LawfulOrder.le_trans hwhole hle⟩

theorem mass_constant [LawfulIndicators α] (hc : Scalar.isFinite c = true) (ha : Scalar.IsGapless a)
    (hb : Scalar.isNaN b = false) : (constant c).mass a b =
      if a ≤ Scalar.ceil c ∧ Scalar.ceil c ≤ b then 1 else 0 := by
  have hdiscrete : (constant c).isDiscrete = true := rfl
  unfold mass
  rw [hdiscrete, if_pos rfl, cdf_constant (LawfulFloor.isNaN_floor hb),
    cdf_constant (LawfulFloor.isNaN_ceil_sub_one ha)]
  have hupper : ¬ Scalar.floor b < c ↔ Scalar.ceil c ≤ b := by
    rw [← LawfulFloor.le_floor_iff hc hb]
    exact ⟨Scalar.le_of_not_lt (LawfulFloor.isNaN_floor hb) (Scalar.isFinite_iff.mp hc).1,
      fun hle hlt => Scalar.not_le_of_lt hlt hle⟩
  have hmax : Scalar.max ((if Scalar.floor b < c then 0 else 1) -
      (if Scalar.ceil a - 1 < c then 0 else 1)) 0 =
        if Scalar.ceil a - 1 < c ∧ ¬ Scalar.floor b < c then (1 : α) else 0 := by
    have hindicators := LawfulIndicators.max_sub (α := α) (!decide (Scalar.floor b < c))
      (!decide (Scalar.ceil a - 1 < c))
    by_cases hfloor : Scalar.floor b < c <;> by_cases hceil : Scalar.ceil a - 1 < c <;>
      simpa [hfloor, hceil] using hindicators
  rw [hmax]
  simp only [hupper, LawfulFloor.ceil_sub_one_lt_iff hc ha]
  by_cases hempty : b < a
  · have hnone : ¬ (a ≤ Scalar.ceil c ∧ Scalar.ceil c ≤ b) := fun ⟨hle, hge⟩ =>
      Scalar.not_le_of_lt hempty (LawfulOrder.le_trans hle hge)
    rw [if_pos hempty, if_neg hnone]
  · rw [if_neg hempty]

end Distribution

end InfoFlow
