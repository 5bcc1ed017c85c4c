import InfoFlow.Proofs.Scalar.DoubleSteps
import InfoFlow.Proofs.Scalar.Gaps

namespace InfoFlow

/-- Arithmetic in which a division goes wrong only at divisors that are 0 or not finite. -/
class LawfulQuotients (α : Type) [Scalar α] : Prop where
  isFinite_abs {x : α} : Scalar.isFinite x = true → Scalar.isFinite (Scalar.abs x) = true
  abs_beq_zero {x : α} : Scalar.isFinite x = true → (Scalar.abs x == 0) = (x == 0)
  isNaN_div {x y : α} : Scalar.isNaN x = false → Scalar.isFinite y = true → (y == 0) = false →
    Scalar.isNaN (x / y) = false
  div_nonneg {x y : α} : 0 ≤ x → Scalar.isFinite y = true → 0 < y → 0 ≤ x / y
  zero_div {x y : α} : (x == 0) = true → Scalar.isFinite y = true → (y == 0) = false →
    (x / y == 0) = true
  isFinite_ln2 : Scalar.isFinite (Scalar.ln2 : α) = true
  ln2_pos : (0 : α) < Scalar.ln2

/-- Arithmetic in which a part of some things is a share between 0 and 1 of them, however their numbers are
rounded. -/
class LawfulShares (α : Type) [Scalar α] : Prop where
  share_mem {a b : ℕ} : a ≤ b → b ≠ 0 → b ≤ 2 ^ 128 →
    (0 : α) ≤ Scalar.ofNat a / Scalar.ofNat b ∧ (Scalar.ofNat a / Scalar.ofNat b : α) ≤ 1

namespace Scalar

variable {α : Type} [Scalar α] [LawfulOrder α] {x : α}

/-- A positive number is not 0. -/
theorem beq_zero_of_pos (h : 0 < x) : (x == 0) = false :=
  Bool.eq_false_of_not_eq_true fun heq => not_le_of_lt h (LawfulOrder.beq_iff_le_le.mp heq).1

end Scalar

namespace Exact

instance : LawfulQuotients Exact where
  isFinite_abs {x} hx := by
    obtain ⟨x, rfl⟩ := isFinite_iff.mp hx
    exact isFinite_iff.mpr ⟨|x|, abs_real x⟩
  abs_beq_zero {x} hx := by
    obtain ⟨x, rfl⟩ := isFinite_iff.mp hx
    rw [abs_real, zero_eq, real_beq, real_beq, Bool.eq_iff_iff, decide_eq_true_iff,
      decide_eq_true_iff, abs_eq_zero]
  isNaN_div {x y} hx hy hne := by
    obtain ⟨y, rfl⟩ := isFinite_iff.mp hy
    have hne : y ≠ 0 := by simpa [zero_eq] using hne
    rw [← Bool.not_eq_true, isNaN_iff] at hx ⊢
    cases x with
    | nan => exact absurd rfl hx
    | negInfinity =>
      change (if y < 0 then infinity else negInfinity) ≠ nan
      split <;> simp
    | real x =>
      rw [real_div hne]
      simp
    | infinity =>
      change (if y < 0 then negInfinity else infinity) ≠ nan
      split <;> simp
  div_nonneg {x y} hx hy hpos := by
    obtain ⟨y, rfl⟩ := isFinite_iff.mp hy
    have hpos : 0 < y := by simpa [zero_eq] using hpos
    cases x with
    | nan => exact absurd hx (LawfulScalar.not_zero_le_of_isBottom (isBottom_iff.mpr (.inl rfl)))
    | negInfinity =>
      exact absurd hx (LawfulScalar.not_zero_le_of_isBottom (isBottom_iff.mpr (.inr rfl)))
    | real x =>
      rw [zero_le_real] at hx
      rw [real_div hpos.ne', zero_le_real]
      exact div_nonneg hx hpos.le
    | infinity =>
      change 0 ≤ if y < 0 then negInfinity else infinity
      rwa [if_neg hpos.not_gt]
  zero_div {x y} hx hy hne := by
    obtain ⟨y, rfl⟩ := isFinite_iff.mp hy
    have hne : y ≠ 0 := by simpa [zero_eq] using hne
    rw [zero_eq, beq_iff] at hx
    rw [hx.1, real_div hne, zero_eq, real_beq, zero_div]
    exact decide_eq_true rfl
  isFinite_ln2 := by
    obtain ⟨y, _, hy⟩ := exists_ln2
    exact isFinite_iff.mpr ⟨y, hy⟩
  ln2_pos := by
    obtain ⟨y, hpos, hy⟩ := exists_ln2
    exact zero_lt_iff.mpr (.inr ⟨y, hy, hpos⟩)

instance : LawfulShares Exact where
  share_mem {a b} hab hb _ := by
    rw [ofNat_eq, ofNat_eq, real_div (Nat.cast_ne_zero.mpr hb), zero_le_real, one_eq, real_le]
    exact ⟨by positivity, div_le_one_of_le₀ (Nat.cast_le.mpr hab) (Nat.cast_nonneg b)⟩

end Exact

namespace Double

open Float.Model Float.Model.UnpackedFloat

theorem beq_zero_iff {x : Float} : (x == 0) = true ↔ ∃ s, unpacked x = .zero s := by
  rw [beq_iff, unpacked_zero]
  rcases unpacked x with (_ | _) | _ | _ | ⟨_ | _, m, e, hm⟩ <;> simp [UnpackedFloat.compare]

/-- What a quotient by a number with a mantissa is: a NaN for a NaN only. -/
theorem div_finite_ne_notANumber {u : UnpackedFloat} (hu : u ≠ .notANumber) (s : Sign) {m : ℕ}
    {e : ℤ} (hm : 0 < m) :
    UnpackedFloat.div Format.binary64 u (.finite s m e hm) ≠ .notANumber := by
  cases u with
  | notANumber => exact absurd rfl hu
  | infinity t => simp [UnpackedFloat.div]
  | zero t => simp [UnpackedFloat.div]
  | finite t n f hn => exact roundWithAccuracy_ne_notANumber _ _ _ _

theorem not_isNegative_div {u : UnpackedFloat} (hu : ¬ IsNegative u) {m : ℕ} {e : ℤ} (hm : 0 < m) :
    ¬ IsNegative (UnpackedFloat.div Format.binary64 u (.finite .positive m e hm)) := by
  have hsign : Sign.positive / Sign.positive = .positive := rfl
  rcases u with (_ | _) | _ | _ | ⟨_ | _, n, f, hn⟩ <;>
    simp_all [IsNegative, UnpackedFloat.div]
  exact not_isNegative_of_hasPositiveSign (hasPositiveSign_roundWithAccuracy _ _ _)

/-- Numbers that are finite, and not 0, have a mantissa. -/
theorem exists_finite {y : Float} (hy : Scalar.isFinite y = true) (hne : (y == 0) = false) :
    ∃ s m e hm, unpacked y = .finite s m e hm := by
  rw [isFinite_iff] at hy
  rw [← Bool.not_eq_true, beq_zero_iff, not_exists] at hne
  cases h : unpacked y with
  | notANumber => simp [h, UnpackedFloat.isFinite] at hy
  | infinity s => simp [h, UnpackedFloat.isFinite] at hy
  | zero s => exact absurd h (hne s)
  | finite s m e hm => exact ⟨s, m, e, hm, rfl⟩

theorem zero_le_iff {x : Float} : 0 ≤ x ↔ ¬ IsNegative (unpacked x) ∧ unpacked x ≠ .notANumber := by
  rw [le_iff, unpacked_zero]
  rcases unpacked x with (_ | _) | _ | _ | ⟨_ | _, m, e, hm⟩ <;>
    simp [UnpackedFloat.compare, IsNegative]

/-- A division by 1 changes nothing, the sign of a zero included. -/
theorem div_one_eq {x : Float} (hx : (unpacked x).isFinite = true) : x / 1 = x := by
  have hone : unpacked 1 = .finite .positive (2 ^ 52) (-52) (by decide) := rfl
  by_cases hzero : (x == 0) = true
  · obtain ⟨s, hs⟩ := beq_zero_iff.mp hzero
    have hsign : s / .positive = s := by cases s <;> rfl
    refine eq_of_zero ?_ hs
    rw [unpacked_div, hs, hone, UnpackedFloat.div, hsign, repack_zero]
  · have hne : value (unpacked x) ≠ 0 := fun h => hzero ((beq_iff_value hx rfl).mpr h)
    have hrounds := rounds_div (x := x) (y := 1) hx rfl (by rw [value_one]; exact one_ne_zero)
    rw [value_one, div_one] at hrounds
    obtain ⟨hfinite, hvalue⟩ := hrounds.value_eq_of_isStored (isStored_value x)
    exact eq_of_value hfinite hx hvalue (hvalue ▸ hne)

instance : LawfulQuotients Float where
  isFinite_abs {x} hx := by
    rw [isFinite_iff] at hx ⊢
    rw [unpacked_abs]
    cases h : unpacked x <;> rw [h] at hx <;> simp_all [UnpackedFloat.abs, UnpackedFloat.isFinite]
  abs_beq_zero {x} hx := by
    rw [Bool.eq_iff_iff, beq_zero_iff, beq_zero_iff, unpacked_abs]
    cases unpacked x <;> simp [UnpackedFloat.abs]
  isNaN_div {x y} hx hy hne := by
    obtain ⟨s, m, e, hm, h⟩ := exists_finite hy hne
    rw [← Bool.not_eq_true, isNaN_iff] at hx ⊢
    rw [unpacked_div, h]
    exact repack_ne_notANumber (div_finite_ne_notANumber hx s hm)
  div_nonneg {x y} hx hy hpos := by
    obtain ⟨s, m, e, hm, h⟩ := exists_finite hy (Scalar.beq_zero_of_pos hpos)
    obtain rfl : s = .positive := by
      rw [lt_iff, unpacked_zero, h] at hpos
      cases s <;> simp_all [UnpackedFloat.compare]
    rw [zero_le_iff] at hx ⊢
    rw [unpacked_div, h]
    exact ⟨fun hneg => not_isNegative_div hx.1 hm (isNegative_of_repack hneg),
      repack_ne_notANumber (div_finite_ne_notANumber hx.2 _ hm)⟩
  zero_div {x y} hx hy hne := by
    obtain ⟨s, m, e, hm, h⟩ := exists_finite hy hne
    rw [beq_zero_iff] at hx ⊢
    obtain ⟨t, ht⟩ := hx
    refine ⟨t / s, ?_⟩
    rw [unpacked_div, ht, h]
    exact repack_zero _
  isFinite_ln2 := by
    rw [isFinite_iff]
    rfl
  ln2_pos := by
    rw [lt_iff]
    rfl

instance : LawfulShares Float where
  share_mem {a b} hab hb hmany := by
    have hcount {n : ℕ} (hn : n ≤ 2 ^ 128) : (unpacked (Scalar.ofNat n)).isFinite = true ∧
        value (unpacked (Scalar.ofNat n)) = rounded n := by
      have hfinite := (rounds_ofNat n).isFinite
        (isStored_two_pow (k := 128) (by norm_num) (by norm_num)) (by
          rw [Nat.abs_cast]
          exact_mod_cast hn)
      exact ⟨hfinite, (rounds_ofNat n).value_eq hfinite⟩
    obtain ⟨hfinitea, hvaluea⟩ := hcount (hab.trans hmany)
    obtain ⟨hfiniteb, hvalueb⟩ := hcount hmany
    have hnonneg : 0 ≤ value (unpacked (Scalar.ofNat a)) := by
      rw [hvaluea, ← rounded_of_isStored isStored_zero]
      exact rounded_mono (Nat.cast_nonneg a)
    have hone : 1 ≤ value (unpacked (Scalar.ofNat b)) := by
      rw [hvalueb, ← rounded_of_isStored (q := 1) (isStored_two_pow (k := 0) (by norm_num) (by norm_num))]
      exact rounded_mono (by exact_mod_cast Nat.one_le_iff_ne_zero.mpr hb)
    have hle : value (unpacked (Scalar.ofNat a)) ≤ value (unpacked (Scalar.ofNat b)) := by
      rw [hvaluea, hvalueb]
      exact rounded_mono (Nat.cast_le.mpr hab)
    have hquotient := rounds_div hfinitea hfiniteb (by linarith)
    refine ⟨(rounds_self rfl).le hquotient (div_nonneg hnonneg (by linarith)), ?_⟩
    refine hquotient.le (y := 1) (rounds_self rfl) ?_
    rw [value_one]
    exact div_le_one_of_le₀ hle (by linarith)

end Double

end InfoFlow
