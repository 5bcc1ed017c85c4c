import InfoFlow.Proofs.Scalar.DoubleWords
import InfoFlow.Proofs.Scalar.Order

namespace InfoFlow

variable {α : Type} [Scalar α]

/-- An infinity, or a number in the range where there are no gaps between the whole doubles. -/
def Scalar.IsGapless (x : α) : Prop :=
  isInfinite x = true ∨ -ofNat (2 ^ 53) < x ∧ x < ofNat (2 ^ 53)

/-- Arithmetic in which floors and ceilings are the next whole numbers. -/
class LawfulFloor (α : Type) [Scalar α] : Prop where
  floor_le {x : α} : Scalar.isFinite x = true → Scalar.floor x ≤ x
  le_ceil {x : α} : Scalar.isFinite x = true → x ≤ Scalar.ceil x
  isInteger_iff {x : α} : Scalar.isFinite x = true →
    (Scalar.isInteger x = true ↔ Scalar.ceil x ≤ x)
  isNaN_floor {x : α} : Scalar.isNaN x = false → Scalar.isNaN (Scalar.floor x) = false
  isNaN_ceil {x : α} : Scalar.isFinite x = true → Scalar.isNaN (Scalar.ceil x) = false
  le_floor_iff {x y : α} : Scalar.isFinite x = true → Scalar.isNaN y = false →
    (x ≤ Scalar.floor y ↔ Scalar.ceil x ≤ y)
  isNaN_ceil_sub_one {x : α} : Scalar.IsGapless x → Scalar.isNaN (Scalar.ceil x - 1) = false
  ceil_sub_one_lt_iff {x y : α} : Scalar.isFinite x = true → Scalar.IsGapless y →
    (Scalar.ceil y - 1 < x ↔ y ≤ Scalar.ceil x)

/-- Arithmetic in which the difference of two probabilities that are 0 or 1 is exact. -/
class LawfulIndicators (α : Type) [Scalar α] : Prop where
  max_sub (p q : Bool) : Scalar.max ((if p then 1 else 0) - (if q then 1 else 0) : α) 0 =
    if p && !q then 1 else 0

namespace Scalar

variable {x y : α}

theorem beq_self (h : isFinite x = true) : (x == x) = true := by
  simpa [isNaN] using (isFinite_iff.mp h).1

variable [LawfulOrder α] [LawfulFloor α]

/-- Finite numbers are whole if they are their own ceilings. -/
theorem ceil_beq (h : isFinite x = true) : (ceil x == x) = isInteger x := by
  rw [Bool.eq_iff_iff, LawfulOrder.beq_iff_le_le, LawfulFloor.isInteger_iff h]
  exact ⟨And.left, fun hle => ⟨hle, LawfulFloor.le_ceil h⟩⟩

/-- Equal numbers are both whole, or neither of them is. -/
theorem isInteger_congr (hx : isFinite x = true) (hy : isFinite y = true) (h : (x == y) = true) :
    isInteger x = isInteger y := by
  have himp {x y : α} (hx : isFinite x = true) (hy : isFinite y = true) (hxy : x ≤ y) (hyx : y ≤ x)
      (hwhole : isInteger x = true) : isInteger y = true := by
    rw [LawfulFloor.isInteger_iff hx, ← LawfulFloor.le_floor_iff hx (isFinite_iff.mp hx).1] at hwhole
    rw [LawfulFloor.isInteger_iff hy]
    have hceil := (LawfulFloor.le_floor_iff hy (isFinite_iff.mp hx).1).mp
      (LawfulOrder.le_trans hyx hwhole)
    exact LawfulOrder.le_trans hceil hxy
  obtain ⟨hxy, hyx⟩ := LawfulOrder.beq_iff_le_le.mp h
  rw [Bool.eq_iff_iff]
  exact ⟨himp hx hy hxy hyx, himp hy hx hyx hxy⟩

end Scalar

section Field

variable {K : Type} [Field K] [LinearOrder K] [FloorRing K]

theorem le_floor_iff_ceil_le (x y : K) : x ≤ ⌊y⌋ ↔ (⌈x⌉ : K) ≤ y := by
  rw [← Int.ceil_le, ← Int.le_floor]

theorem intCeil_sub_one_lt_iff (x y : K) : (⌈y⌉ : K) - 1 < x ↔ y ≤ ⌈x⌉ := by
  rw [← Int.ceil_le, ← Int.sub_one_lt_iff, Int.lt_ceil]
  push_cast
  rfl

theorem ceil_le_self_iff [IsStrictOrderedRing K] (x : K) : (⌈x⌉ : K) ≤ x ↔ ∃ i : ℤ, x = i := by
  constructor
  · exact fun h => ⟨⌈x⌉, (Int.le_ceil x).antisymm h⟩
  · rintro ⟨i, rfl⟩
    rw [Int.ceil_intCast]

end Field

namespace Exact

variable {z : Exact}

theorem floor_real (x : ℝ) : Scalar.floor (real x) = real ⌊x⌋ := rfl

theorem ceil_real (x : ℝ) : Scalar.ceil (real x) = real ⌈x⌉ := rfl

theorem real_le_infinity (x : ℝ) : real x ≤ infinity := .inl trivial

theorem not_infinity_le_real (x : ℝ) : ¬ infinity ≤ real x := by
  rintro (h | ⟨h, _⟩) <;> cases h

theorem negInfinity_le_real (x : ℝ) : negInfinity ≤ real x := .inl trivial

theorem not_real_le_negInfinity (x : ℝ) : ¬ real x ≤ negInfinity := by
  rintro (h | ⟨h, _⟩) <;> cases h

theorem isInteger_real (x : ℝ) : Scalar.isInteger (real x) = true ↔ ∃ i : ℤ, x = i := by
  constructor
  · have htrunc : Scalar.trunc (real x) = real (truncate x) := by
      unfold Scalar.trunc truncate
      rw [zero_eq, floor_real, ceil_real]
      by_cases hneg : x < 0 <;> simp [hneg]
    unfold Scalar.isInteger Scalar.fract
    rw [htrunc, real_sub, zero_eq, real_beq, decide_eq_true_iff, sub_eq_zero]
    exact fun h => ⟨_, h⟩
  · rintro ⟨i, rfl⟩
    exact isInteger_intCast i

theorem isGapless_ne_nan (h : Scalar.IsGapless z) : z ≠ nan := by
  rintro rfl
  rcases h with h | ⟨h, _⟩
  · simp [Scalar.isInfinite] at h
  · cases h

instance : LawfulFloor Exact where
  floor_le {x} h := by
    obtain ⟨x, rfl⟩ := isFinite_iff.mp h
    rw [floor_real, real_le]
    exact Int.floor_le x
  le_ceil {x} h := by
    obtain ⟨x, rfl⟩ := isFinite_iff.mp h
    rw [ceil_real, real_le]
    exact Int.le_ceil x
  isInteger_iff {x} h := by
    obtain ⟨x, rfl⟩ := isFinite_iff.mp h
    rw [ceil_real, real_le, ceil_le_self_iff]
    exact isInteger_real x
  isNaN_floor {x} h := by
    rw [← Bool.not_eq_true, isNaN_iff] at h ⊢
    cases x with
    | nan => exact absurd rfl h
    | negInfinity => exact nofun
    | real x => exact nofun
    | infinity => exact nofun
  isNaN_ceil {x} h := by
    obtain ⟨x, rfl⟩ := isFinite_iff.mp h
    rw [← Bool.not_eq_true, isNaN_iff, ceil_real]
    exact nofun
  le_floor_iff {x y} h hy := by
    obtain ⟨x, rfl⟩ := isFinite_iff.mp h
    rw [ceil_real]
    cases y with
    | nan => cases hy.symm.trans (isNaN_iff.mpr rfl)
    | negInfinity =>
      exact iff_of_false (not_real_le_negInfinity x) (not_real_le_negInfinity _)
    | real y =>
      rw [floor_real, real_le, real_le]
      exact le_floor_iff_ceil_le x y
    | infinity => exact iff_of_true (real_le_infinity x) (real_le_infinity _)
  isNaN_ceil_sub_one {x} h := by
    rw [← Bool.not_eq_true, isNaN_iff, one_eq]
    cases x with
    | nan => exact absurd rfl (isGapless_ne_nan h)
    | negInfinity => exact nofun
    | real x =>
      rw [ceil_real, real_sub]
      exact nofun
    | infinity => exact nofun
  ceil_sub_one_lt_iff {x y} hx hy := by
    obtain ⟨x, rfl⟩ := isFinite_iff.mp hx
    rw [ceil_real, one_eq]
    cases y with
    | nan => exact absurd rfl (isGapless_ne_nan hy)
    | negInfinity => exact iff_of_true trivial (negInfinity_le_real _)
    | real y =>
      rw [ceil_real, real_sub, real_lt, real_le]
      exact intCeil_sub_one_lt_iff x y
    | infinity => exact iff_of_false id (not_infinity_le_real _)

instance : LawfulIndicators Exact where
  max_sub p q := by
    cases p <;> cases q <;> simp [zero_eq, one_eq, max_real]

end Exact

namespace Double

open Float.Model Float.Model.UnpackedFloat

variable {x y : Float}

theorem le_iff_value (hx : (unpacked x).isFinite = true) (hy : (unpacked y).isFinite = true) :
    x ≤ y ↔ value (unpacked x) ≤ value (unpacked y) := by
  rw [le_iff, compare_eq hx hy, Option.any_some, Ordering.isLE_iff_ne_gt,
    compare_gt_iff_gt, not_lt]

theorem lt_infinity (hx : (unpacked x).isFinite = true) (hy : unpacked y = .infinity .positive) :
    x < y := by
  rw [lt_iff, hy]
  rcases hu : unpacked x with _ | _ | _ | _ <;> rw [hu] at hx <;> try cases hx
  all_goals rfl

theorem negInfinity_lt (hx : (unpacked x).isFinite = true) (hy : unpacked y = .infinity .negative) :
    y < x := by
  rw [lt_iff, hy]
  rcases hu : unpacked x with _ | _ | _ | _ <;> rw [hu] at hx <;> try cases hx
  all_goals rfl

theorem unpacked_floor_infinity {s : Sign} (h : unpacked x = .infinity s) :
    unpacked (Scalar.floor x) = .infinity s := by
  have hlimit : (unpacked 4503599627370496).isFinite = true := rfl
  have hfloor : Scalar.floorOfFloat x = x := by
    unfold Scalar.floorOfFloat
    cases s with
    | positive =>
      have hlarge := Scalar.lt_asymm (lt_infinity hlimit h)
      have hpositive := Scalar.lt_asymm (lt_infinity (x := 0) rfl h)
      simp [hlarge, hpositive]
    | negative =>
      have hsmall := Scalar.lt_asymm (negInfinity_lt (isFinite_neg hlimit) h)
      have hnegative := Scalar.lt_asymm (negInfinity_lt (x := 0) rfl h)
      simp [hsmall, hnegative]
  change unpacked (Scalar.floorOfFloat x) = _
  rw [hfloor, h]

theorem unpacked_ceil_infinity {s : Sign} (h : unpacked x = .infinity s) :
    unpacked (Scalar.ceil x) = .infinity s := by
  have hneg : unpacked (-x) = .infinity (-s) := by rw [unpacked_neg, h]; rfl
  change unpacked (-Scalar.floor (-x)) = _
  rw [unpacked_neg, unpacked_floor_infinity hneg]
  cases s <;> rfl

theorem unpacked_infinity_sub_one {s : Sign} (h : unpacked x = .infinity s) :
    unpacked (x - 1) = .infinity s := by
  have hone : unpacked 1 = .finite .positive (2 ^ 52) (-52) (by decide) := rfl
  rw [unpacked_sub, h, hone]
  exact repack_infinity s

/-- A number is finite or infinite. -/
theorem isFinite_or_infinity (h : Scalar.isNaN x = false) :
    (unpacked x).isFinite = true ∨ ∃ s, unpacked x = .infinity s := by
  rw [← Bool.not_eq_true, isNaN_iff] at h
  cases hu : unpacked x with
  | notANumber => exact absurd hu h
  | infinity s => exact .inr ⟨s, rfl⟩
  | zero s => exact .inl rfl
  | finite s m e hm => exact .inl rfl

theorem isNaN_of_isFinite (h : (unpacked x).isFinite = true) : Scalar.isNaN x = false :=
  (Scalar.isFinite_iff.mp (isFinite_iff.mpr h)).1

theorem isNaN_of_infinity {s : Sign} (h : unpacked x = .infinity s) : Scalar.isNaN x = false := by
  rw [← Bool.not_eq_true, isNaN_iff, h]
  exact nofun

theorem isExact_gapless : IsExact (2 ^ 53) :=
  .inr ⟨2 ^ 52, 1, ⟨le_rfl, by norm_num, by norm_num, by norm_num⟩, by norm_num⟩

/-- Where there are no gaps, one is subtracted from a whole double without rounding. -/
theorem gapless_cases (h : Scalar.IsGapless x) : (∃ s, unpacked x = .infinity s) ∨
    (unpacked x).isFinite = true ∧ (unpacked (Scalar.ceil x - 1)).isFinite = true ∧
      value (unpacked (Scalar.ceil x - 1)) = ⌈value (unpacked x)⌉ - 1 := by
  rcases h with hinfinite | ⟨hlow, hhigh⟩
  · left
    rcases Bool.or_eq_true_iff.mp hinfinite with h | h
    · exact ⟨_, beq_infinity_iff.mp h⟩
    · exact ⟨_, beq_negInfinity_iff.mp h⟩
  · right
    obtain ⟨hbound, hvalue⟩ := value_ofNat isExact_gapless
    have hx : (unpacked x).isFinite = true := by
      rcases hu : unpacked x with (_ | _) | _ | _ | _
      · exact absurd hlow (Scalar.lt_asymm (negInfinity_lt (isFinite_neg hbound) hu))
      · exact absurd hhigh (Scalar.lt_asymm (lt_infinity hbound hu))
      · rw [lt_iff, hu] at hhigh
        cases hhigh
      · rfl
      · rfl
    rw [lt_iff_value (isFinite_neg hbound) hx, unpacked_neg, value_neg, hvalue] at hlow
    rw [lt_iff_value hx hbound, hvalue] at hhigh
    obtain ⟨hceil, hvalueceil⟩ := value_ceil hx
    have hstored : IsStored (value (unpacked (Scalar.ceil x)) - value (unpacked 1)) := by
      have hle : ⌈value (unpacked x)⌉ ≤ 2 ^ 53 := Int.ceil_le.mpr (by push_cast at hhigh ⊢; exact hhigh.le)
      have hlt : -2 ^ 53 < ⌈value (unpacked x)⌉ := Int.lt_ceil.mpr (by push_cast at hlow ⊢; exact hlow)
      rw [hvalueceil, value_one]
      exact_mod_cast isStored_intCast (i := ⌈value (unpacked x)⌉ - 1) (by omega)
    obtain ⟨hfinite, hdifference⟩ := value_sub hceil rfl hstored
    exact ⟨hx, hfinite, by rw [hdifference, hvalueceil, value_one]⟩

instance : LawfulFloor Float where
  floor_le {x} h := by
    rw [isFinite_iff] at h
    obtain ⟨hfinite, hvalue⟩ := value_floor h
    rw [le_iff_value hfinite h, hvalue]
    exact Int.floor_le _
  le_ceil {x} h := by
    rw [isFinite_iff] at h
    obtain ⟨hfinite, hvalue⟩ := value_ceil h
    rw [le_iff_value h hfinite, hvalue]
    exact Int.le_ceil _
  isInteger_iff {x} h := by
    rw [isFinite_iff] at h
    obtain ⟨hfinite, hvalue⟩ := value_ceil h
    rw [le_iff_value hfinite h, hvalue, ceil_le_self_iff]
    exact isInteger_iff h
  isNaN_floor {x} h := by
    rcases isFinite_or_infinity h with hx | ⟨s, hx⟩
    · exact isNaN_of_isFinite (value_floor hx).1
    · exact isNaN_of_infinity (unpacked_floor_infinity hx)
  isNaN_ceil {x} h := isNaN_of_isFinite (value_ceil (isFinite_iff.mp h)).1
  le_floor_iff {x y} hx hy := by
    rw [isFinite_iff] at hx
    obtain ⟨hceil, hvalue⟩ := value_ceil hx
    rcases isFinite_or_infinity hy with hy | ⟨s, hy⟩
    · obtain ⟨hfloor, hvalue'⟩ := value_floor hy
      rw [le_iff_value hx hfloor, le_iff_value hceil hy, hvalue, hvalue']
      exact le_floor_iff_ceil_le _ _
    · have hfloor := unpacked_floor_infinity hy
      cases s with
      | positive =>
        exact iff_of_true (Scalar.le_of_lt (lt_infinity hx hfloor))
          (Scalar.le_of_lt (lt_infinity hceil hy))
      | negative =>
        exact iff_of_false (Scalar.not_le_of_lt (negInfinity_lt hx hfloor))
          (Scalar.not_le_of_lt (negInfinity_lt hceil hy))
  isNaN_ceil_sub_one {x} h := by
    rcases gapless_cases h with ⟨s, hx⟩ | ⟨_, hfinite, _⟩
    · exact isNaN_of_infinity (unpacked_infinity_sub_one (unpacked_ceil_infinity hx))
    · exact isNaN_of_isFinite hfinite
  ceil_sub_one_lt_iff {x y} hx hy := by
    rw [isFinite_iff] at hx
    obtain ⟨hceil, hvalue⟩ := value_ceil hx
    rcases gapless_cases hy with ⟨s, hy⟩ | ⟨hy, hfinite, hvalue'⟩
    · have hless := unpacked_infinity_sub_one (unpacked_ceil_infinity hy)
      cases s with
      | positive =>
        exact iff_of_false (Scalar.lt_asymm (lt_infinity hx hless))
          (Scalar.not_le_of_lt (lt_infinity hceil hy))
      | negative =>
        exact iff_of_true (negInfinity_lt hx hless)
          (Scalar.le_of_lt (negInfinity_lt hceil hy))
    · rw [le_iff_value hy hceil, hvalue]
      refine (lt_iff_value hfinite hx).trans ?_
      rw [hvalue']
      exact intCeil_sub_one_lt_iff _ _

instance : LawfulIndicators Float where
  max_sub p q := by
    cases p <;> cases q <;> rfl

end Double

end InfoFlow
