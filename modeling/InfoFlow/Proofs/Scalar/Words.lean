import InfoFlow.Proofs.Scalar.Exact

namespace InfoFlow

/-- Arithmetic in which the word that a number is truncated to is a number again: a whole one, that is
truncated to the same word. Truncation does not change the order, nor is what is 1 or more truncated to
less. -/
class LawfulWords (α : Type) [Scalar α] : Prop where
  isFinite_ofUInt64 (x : α) : Scalar.isFinite (Scalar.ofUInt64 (Scalar.toUInt64 x) : α) = true
  isInteger_ofUInt64 (x : α) : Scalar.isInteger (Scalar.ofUInt64 (Scalar.toUInt64 x) : α) = true
  toUInt64_ofUInt64 (x : α) :
    Scalar.toUInt64 (Scalar.ofUInt64 (Scalar.toUInt64 x) : α) = Scalar.toUInt64 x
  not_ofUInt64_lt_one {x : α} : Scalar.isFinite x = true → ¬ x < 1 →
    ¬ (Scalar.ofUInt64 (Scalar.toUInt64 x) : α) < 1
  isFinite_ofInt64 (x : α) : Scalar.isFinite (Scalar.ofInt64 (Scalar.toInt64 x) : α) = true
  isInteger_ofInt64 (x : α) : Scalar.isInteger (Scalar.ofInt64 (Scalar.toInt64 x) : α) = true
  toInt64_ofInt64 (x : α) :
    Scalar.toInt64 (Scalar.ofInt64 (Scalar.toInt64 x) : α) = Scalar.toInt64 x
  not_ofInt64_lt {x y : α} : Scalar.isFinite x = true → Scalar.isFinite y = true → ¬ y < x →
    ¬ (Scalar.ofInt64 (Scalar.toInt64 y) : α) < Scalar.ofInt64 (Scalar.toInt64 x)

/-- Arithmetic in which the words that finite numbers are truncated to stand in the order of the numbers. -/
class LawfulTruncation (α : Type) [Scalar α] : Prop where
  toUInt64_mono {x y : α} : Scalar.isFinite x = true → Scalar.isFinite y = true → ¬ y < x →
    Scalar.toUInt64 x ≤ Scalar.toUInt64 y

namespace Exact

theorem ofInt_eq (i : ℤ) : (Scalar.ofInt i : Exact) = real i := by
  unfold Scalar.ofInt
  split
  · rename_i hneg
    rw [ofNat_eq, neg_real, Nat.cast_natAbs, abs_of_neg hneg, Int.cast_neg, neg_neg]
  · rename_i hnonneg
    rw [ofNat_eq, Nat.cast_natAbs, abs_of_nonneg (not_lt.mp hnonneg)]

theorem isInteger_intCast (i : ℤ) : Scalar.isInteger (real i) = true := by
  have hfloor : Scalar.floor (real i) = real i := by
    change real (⌊(i : ℝ)⌋ : ℝ) = real i
    rw [Int.floor_intCast]
  have hceil : Scalar.ceil (real i) = real i := by
    change real (⌈(i : ℝ)⌉ : ℝ) = real i
    rw [Int.ceil_intCast]
  simp [Scalar.isInteger, Scalar.fract, Scalar.trunc, hfloor, hceil, zero_eq]

theorem truncate_intCast (i : ℤ) : truncate i = i := by
  unfold truncate
  split
  · exact Int.ceil_intCast i
  · exact Int.floor_intCast i

theorem truncate_mono {x y : ℝ} (h : x ≤ y) : truncate x ≤ truncate y := by
  unfold truncate
  by_cases hx : x < 0
  · by_cases hy : y < 0
    · rw [if_pos hx, if_pos hy]
      exact Int.ceil_mono h
    · rw [if_pos hx, if_neg hy]
      have hceil : ⌈x⌉ ≤ 0 := Int.ceil_le.mpr (by exact_mod_cast hx.le)
      exact hceil.trans (Int.floor_nonneg.mpr (not_lt.mp hy))
  · have hy : ¬ y < 0 := fun hy => hx (h.trans_lt hy)
    rw [if_neg hx, if_neg hy]
    exact Int.floor_mono h

theorem toWord_mono {lower upper : ℤ} {x y : ℝ} (h : x ≤ y) :
    toWord lower upper (real x) ≤ toWord lower upper (real y) := by
  have htruncate := truncate_mono h
  simp only [toWord]
  omega

theorem toWord_mem {lower upper : ℤ} (hlower : lower ≤ 0) (hupper : 0 ≤ upper) (x : Exact) :
    lower ≤ toWord lower upper x ∧ toWord lower upper x ≤ upper := by
  cases x <;> simp only [toWord] <;> omega

theorem toWord_intCast {lower upper i : ℤ} (hlower : lower ≤ i) (hupper : i ≤ upper) :
    toWord lower upper (real i) = i := by
  simp only [toWord, truncate_intCast]
  omega

theorem toNat_toUInt64 (x : Exact) :
    ((Scalar.toUInt64 x).toNat : ℤ) = toWord 0 (2 ^ 64 - 1) x := by
  obtain ⟨hlower, hupper⟩ := toWord_mem (le_refl 0) (show (0 : ℤ) ≤ 2 ^ 64 - 1 by decide) x
  change ((UInt64.ofNat (toWord 0 (2 ^ 64 - 1) x).toNat).toNat : ℤ) = _
  rw [UInt64.toNat_ofNat_of_lt' (by simp only [UInt64.size]; omega)]
  omega

theorem toInt_toInt64 (x : Exact) :
    (Scalar.toInt64 x).toInt = toWord (-2 ^ 63) (2 ^ 63 - 1) x := by
  obtain ⟨hlower, hupper⟩ := toWord_mem (show (-2 ^ 63 : ℤ) ≤ 0 by decide)
    (show (0 : ℤ) ≤ 2 ^ 63 - 1 by decide) x
  change (Int64.ofInt (toWord (-2 ^ 63) (2 ^ 63 - 1) x)).toInt = _
  exact Int64.toInt_ofInt_of_le hlower (by omega)

theorem ofUInt64_eq (w : UInt64) : (Scalar.ofUInt64 w : Exact) = real (w.toNat : ℤ) := by
  unfold Scalar.ofUInt64
  rw [ofNat_eq]
  norm_cast

instance : LawfulWords Exact where
  isFinite_ofUInt64 x := isFinite_iff.mpr ⟨_, rfl⟩
  isInteger_ofUInt64 x := by
    rw [ofUInt64_eq]
    exact isInteger_intCast _
  toUInt64_ofUInt64 x := by
    obtain ⟨hlower, hupper⟩ := toWord_mem (le_refl 0) (show (0 : ℤ) ≤ 2 ^ 64 - 1 by decide) x
    rw [← UInt64.toNat_inj, ← Int.ofNat_inj, toNat_toUInt64, ofUInt64_eq, toNat_toUInt64]
    exact toWord_intCast hlower hupper
  not_ofUInt64_lt_one {x} hx h := by
    obtain ⟨x, rfl⟩ := isFinite_iff.mp hx
    rw [one_eq, real_lt, not_lt] at h
    have htruncate : 1 ≤ truncate x := by
      have hone := truncate_mono h
      rwa [show (1 : ℝ) = ((1 : ℤ) : ℝ) by norm_num, truncate_intCast] at hone
    rw [ofUInt64_eq, toNat_toUInt64, one_eq, real_lt, not_lt]
    have hword : 1 ≤ toWord 0 (2 ^ 64 - 1) (real x) := by
      simp only [toWord]
      omega
    exact_mod_cast hword
  isFinite_ofInt64 x := by
    unfold Scalar.ofInt64
    rw [ofInt_eq]
    exact isFinite_iff.mpr ⟨_, rfl⟩
  isInteger_ofInt64 x := by
    unfold Scalar.ofInt64
    rw [ofInt_eq]
    exact isInteger_intCast _
  toInt64_ofInt64 x := by
    obtain ⟨hlower, hupper⟩ := toWord_mem (show (-2 ^ 63 : ℤ) ≤ 0 by decide)
      (show (0 : ℤ) ≤ 2 ^ 63 - 1 by decide) x
    unfold Scalar.ofInt64
    rw [← Int64.toInt_inj, toInt_toInt64, ofInt_eq, toInt_toInt64]
    exact toWord_intCast hlower hupper
  not_ofInt64_lt {x y} hx hy h := by
    obtain ⟨x, rfl⟩ := isFinite_iff.mp hx
    obtain ⟨y, rfl⟩ := isFinite_iff.mp hy
    unfold Scalar.ofInt64
    rw [ofInt_eq, ofInt_eq, real_lt, not_lt, toInt_toInt64, toInt_toInt64]
    exact_mod_cast toWord_mono (not_lt.mp h)

instance : LawfulTruncation Exact where
  toUInt64_mono {x y} hx hy h := by
    obtain ⟨x, rfl⟩ := isFinite_iff.mp hx
    obtain ⟨y, rfl⟩ := isFinite_iff.mp hy
    rw [UInt64.le_iff_toNat_le, ← Int.ofNat_le, toNat_toUInt64, toNat_toUInt64]
    exact toWord_mono (not_lt.mp h)

end Exact

end InfoFlow
