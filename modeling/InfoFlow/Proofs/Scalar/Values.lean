import InfoFlow.Proofs.Scalar.Integers

namespace InfoFlow

/-- Numbers that stand for real numbers, if they are finite. -/
class RealValued (α : Type) [Scalar α] where
  toReal : α → ℝ

open RealValued (toReal)

/-- Arithmetic whose comparisons, floors and integers are those of the real numbers. -/
class LawfulReal (α : Type) [Scalar α] [RealValued α] : Prop where
  le_iff_toReal {x y : α} : Scalar.isFinite x = true → Scalar.isFinite y = true →
    (x ≤ y ↔ toReal x ≤ toReal y)
  isInteger_iff_toReal {x : α} : Scalar.isFinite x = true →
    (Scalar.isInteger x = true ↔ ∃ i : ℤ, toReal x = i)
  toReal_floor {x : α} : Scalar.isFinite x = true → toReal (Scalar.floor x) = ⌊toReal x⌋
  toReal_abs {x : α} : Scalar.isFinite x = true → toReal (Scalar.abs x) = |toReal x|
  toReal_ofInt {i : ℤ} : i.natAbs ≤ 2 ^ 53 → toReal (Scalar.ofInt i : α) = i
  isFinite_ofInt {i : ℤ} : i.natAbs ≤ 2 ^ 64 → Scalar.isFinite (Scalar.ofInt i : α) = true
  ofInt_mono {i j : ℤ} : i ≤ j → (Scalar.ofInt i : α) ≤ Scalar.ofInt j

namespace Scalar

variable {α : Type} [Scalar α] [RealValued α] [LawfulReal α] {x y : α} {n : ℕ}

theorem toReal_ofNat (hn : n ≤ 2 ^ 53) : toReal (ofNat n : α) = n := by
  rw [← ofInt_natCast, LawfulReal.toReal_ofInt (by simpa using hn), Int.cast_natCast]

theorem toReal_zero : toReal (0 : α) = 0 := (toReal_ofNat (Nat.zero_le _)).trans Nat.cast_zero

theorem toReal_one : toReal (1 : α) = 1 := (toReal_ofNat (by norm_num)).trans Nat.cast_one

theorem isFinite_ofNat_word (hn : n ≤ 2 ^ 64) : isFinite (ofNat n : α) = true := by
  rw [← ofInt_natCast]
  exact LawfulReal.isFinite_ofInt (by simpa using hn)

theorem ofNat_mono {m : ℕ} (h : m ≤ n) : (ofNat m : α) ≤ ofNat n := by
  rw [← ofInt_natCast, ← ofInt_natCast]
  exact LawfulReal.ofInt_mono (Int.ofNat_le.mpr h)

theorem lt_iff_toReal [LawfulOrder α] (hx : isFinite x = true) (hy : isFinite y = true) :
    x < y ↔ toReal x < toReal y := by
  rw [LawfulOrder.lt_iff_le_not_le, LawfulReal.le_iff_toReal hx hy, LawfulReal.le_iff_toReal hy hx,
    lt_iff_le_not_ge]

theorem toReal_max [LawfulOrder α] (hx : isFinite x = true) (hy : isFinite y = true) :
    isFinite (max x y) = true ∧ toReal (max x y) = Max.max (toReal x) (toReal y) := by
  unfold max
  rw [if_neg (by simp [(isFinite_iff.mp hx).1])]
  split
  case isTrue hlt =>
    rw [lt_iff_toReal hx hy] at hlt
    exact ⟨hy, (max_eq_right hlt.le).symm⟩
  case isFalse hle =>
    rw [lt_iff_toReal hx hy, not_lt] at hle
    exact ⟨hx, (max_eq_left hle).symm⟩

end Scalar

namespace Exact

noncomputable instance : RealValued Exact := ⟨Exact.toReal⟩

theorem toReal_real (x : ℝ) : RealValued.toReal (real x) = x := rfl

instance : LawfulReal Exact where
  le_iff_toReal {x y} hx hy := by
    obtain ⟨x, rfl⟩ := isFinite_iff.mp hx
    obtain ⟨y, rfl⟩ := isFinite_iff.mp hy
    exact real_le
  isInteger_iff_toReal {x} hx := by
    obtain ⟨x, rfl⟩ := isFinite_iff.mp hx
    exact isInteger_real x
  toReal_floor {x} hx := by
    obtain ⟨x, rfl⟩ := isFinite_iff.mp hx
    rfl
  toReal_abs {x} hx := by
    obtain ⟨x, rfl⟩ := isFinite_iff.mp hx
    rfl
  toReal_ofInt {i} _ := congrArg toReal (ofInt_eq i)
  isFinite_ofInt {i} _ := isFinite_iff.mpr ⟨i, ofInt_eq i⟩
  ofInt_mono {i j} h := by
    rw [ofInt_eq, ofInt_eq, real_le]
    exact_mod_cast h

end Exact

namespace Double

open Float.Model Float.Model.UnpackedFloat

noncomputable instance : RealValued Float := ⟨fun x => (value (unpacked x) : ℚ)⟩

variable {x y : Float}

theorem toReal_eq (x : Float) : toReal x = (value (unpacked x) : ℝ) := rfl

theorem Rounds.neg {q : ℚ} {u : UnpackedFloat} (h : Rounds q u) : Rounds (-q) u.neg := by
  cases h with
  | finite hbound hfinite hvalue =>
    refine .finite ?_ ?_ ?_
    · rwa [rounded_neg, abs_neg]
    · cases u <;> trivial
    · rw [value_neg, hvalue, rounded_neg]
  | above hlarge =>
    refine .below ?_
    rw [rounded_neg]
    exact neg_le_neg hlarge
  | below hlarge =>
    refine .above ?_
    rw [rounded_neg]
    exact le_neg_of_le_neg hlarge

/-- An integer is converted to the double next to it. -/
theorem rounds_ofInt (i : ℤ) : Rounds i (unpacked (Scalar.ofInt i)) := by
  have hnat := rounds_ofNat i.natAbs
  unfold Scalar.ofInt
  split
  case isTrue hneg =>
    have hi : (i : ℚ) = -(i.natAbs : ℚ) := by
      rw [← Int.cast_natCast, Int.ofNat_natAbs_of_nonpos hneg.le, Int.cast_neg, neg_neg]
    rw [hi, unpacked_neg]
    exact hnat.neg
  case isFalse hpos =>
    have hi : (i : ℚ) = i.natAbs := by
      rw [← Int.cast_natCast, Int.natAbs_of_nonneg (not_lt.mp hpos)]
    rwa [hi]

instance : LawfulReal Float where
  le_iff_toReal {x y} hx hy := by
    rw [toReal_eq, toReal_eq, Rat.cast_le]
    exact le_iff_value (isFinite_iff.mp hx) (isFinite_iff.mp hy)
  isInteger_iff_toReal {x} hx := by
    rw [isInteger_iff (isFinite_iff.mp hx), toReal_eq]
    exact exists_congr fun i => by norm_cast
  toReal_floor {x} hx := by
    rw [toReal_eq, toReal_eq, (value_floor (isFinite_iff.mp hx)).2, Rat.floor_cast, Rat.cast_intCast]
  toReal_abs {x} _ := by
    rw [toReal_eq, toReal_eq, unpacked_abs, value_abs, Rat.cast_abs]
  toReal_ofInt {i} hi := by
    rw [toReal_eq, (value_ofInt_of_le hi).2, Rat.cast_intCast]
  isFinite_ofInt {i} hi := by
    refine isFinite_iff.mpr ((rounds_ofInt i).isFinite
      (isStored_two_pow (k := 64) (by norm_num) (by norm_num)) ?_)
    rw [← Int.cast_abs, Int.abs_eq_natAbs]
    exact_mod_cast hi
  ofInt_mono {i j} h := (rounds_ofInt i).le (rounds_ofInt j) (Int.cast_le.mpr h)

end Double

end InfoFlow
