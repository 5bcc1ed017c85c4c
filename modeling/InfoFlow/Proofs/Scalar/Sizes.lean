import InfoFlow.Proofs.Scalar.Gaps

namespace InfoFlow

/-- An integer from 1 on. -/
def Scalar.isSize {α : Type} [Scalar α] (x : α) : Bool :=
  isFinite x && isInteger x && decide (1 ≤ x)

/-- Arithmetic in which sizes, and sizes that are counted up by one, are integers. -/
class LawfulSizes (α : Type) [Scalar α] : Prop where
  isSize_ofNat {n : ℕ} : 1 ≤ n → n ≤ 2 ^ 64 → Scalar.isSize (Scalar.ofNat n : α) = true
  isSize_ofNat_add_one {n : ℕ} : n ≤ 2 ^ 64 → Scalar.isSize (Scalar.ofNat n + 1 : α) = true

namespace Scalar

variable {α : Type} [Scalar α] {x : α}

theorem isSize_iff : isSize x = true ↔ isFinite x = true ∧ isInteger x = true ∧ 1 ≤ x := by
  unfold isSize
  rw [Bool.and_eq_true, Bool.and_eq_true, decide_eq_true_iff, and_assoc]

end Scalar

namespace Exact

theorem isSize_real {i : ℤ} (hi : 1 ≤ i) : Scalar.isSize (real i) = true := by
  rw [Scalar.isSize_iff, one_eq, real_le]
  exact ⟨isFinite_iff.mpr ⟨i, rfl⟩, (isInteger_real i).mpr ⟨i, rfl⟩, by exact_mod_cast hi⟩

instance : LawfulSizes Exact where
  isSize_ofNat {n} hn _ := by
    have hsize : Scalar.isSize (real (n : ℤ)) = true := isSize_real (by omega)
    rwa [Int.cast_natCast] at hsize
  isSize_ofNat_add_one {n} _ := by
    have hsize : Scalar.isSize (real (n + 1 : ℤ)) = true := isSize_real (by omega)
    rwa [ofNat_eq, one_eq, real_add, ← Int.cast_natCast, ← Int.cast_one, ← Int.cast_add]

end Exact

namespace Double

open Float.Model Float.Model.UnpackedFloat

variable {x : Float} {i : ℤ}

/-- An integer is rounded to an integer: doubles that are too large for every integer have no fraction. -/
theorem exists_int_of_rounds (h : Rounds i (unpacked x)) (hx : (unpacked x).isFinite = true) :
    ∃ j : ℤ, value (unpacked x) = j := by
  rcases le_or_gt i.natAbs (2 ^ 53) with hsmall | hlarge
  · exact ⟨i, (h.value_eq_of_isStored (isStored_intCast hsmall)).2⟩
  · apply (isStored_value x).exists_int
    have hle : (2 : ℚ) ^ (52 : ℤ) ≤ |(i : ℚ)| := by
      rw [← Int.cast_abs, Int.abs_eq_natAbs]
      exact_mod_cast (by omega : 2 ^ 52 ≤ i.natAbs)
    have hrounded := rounded_mono hle
    rw [rounded_of_isStored (isStored_two_pow (by norm_num) (by norm_num)), rounded_abs] at hrounded
    rw [h.value_eq hx]
    exact_mod_cast hrounded

/-- What an integer from 1 on is rounded to is one, unless it overflows. -/
theorem isSize_of_rounds (h : Rounds i (unpacked x)) (hi : 1 ≤ i) (hle : i ≤ 2 ^ 65) :
    Scalar.isSize x = true := by
  have hlimit : |(i : ℚ)| ≤ 2 ^ (65 : ℤ) := by
    rw [abs_of_pos (by exact_mod_cast hi)]
    exact_mod_cast hle
  have hfinite := h.isFinite (isStored_two_pow (by norm_num) (by norm_num)) hlimit
  have hone : Rounds 1 (unpacked 1) := value_one ▸ rounds_self rfl
  refine Scalar.isSize_iff.mpr ⟨isFinite_iff.mpr hfinite, ?_, ?_⟩
  · exact (isInteger_iff hfinite).mpr (exists_int_of_rounds h hfinite)
  · exact hone.le h (by exact_mod_cast hi)

instance : LawfulSizes Float where
  isSize_ofNat {n} hn hle :=
    isSize_of_rounds (i := n) (by exact_mod_cast rounds_ofNat n) (by omega) (by omega)
  isSize_ofNat_add_one {n} hle := by
    have hrounds : Rounds (n : ℤ) (unpacked (Scalar.ofNat n)) := by exact_mod_cast rounds_ofNat n
    have hlimit : |((n : ℤ) : ℚ)| ≤ 2 ^ (64 : ℤ) := by
      rw [Int.cast_natCast, Nat.abs_cast]
      exact_mod_cast hle
    obtain ⟨hfinite, hbound⟩ :=
      hrounds.abs_value_le (isStored_two_pow (by norm_num) (by norm_num)) hlimit
    obtain ⟨j, hj⟩ := exists_int_of_rounds hrounds hfinite
    have hnonneg : 0 ≤ j := by
      have hzero : rounded 0 ≤ rounded (n : ℤ) := rounded_mono (by positivity)
      rw [rounded_of_isStored isStored_zero, ← hrounds.value_eq hfinite, hj] at hzero
      exact_mod_cast hzero
    have hsum := rounds_add (y := 1) hfinite rfl
    rw [hj, value_one] at hsum
    rw [hj] at hbound
    have hj : j ≤ 2 ^ 64 := by exact_mod_cast (abs_le.mp hbound).2
    exact isSize_of_rounds (i := j + 1) (by exact_mod_cast hsum) (by omega) (by omega)

end Double

end InfoFlow
