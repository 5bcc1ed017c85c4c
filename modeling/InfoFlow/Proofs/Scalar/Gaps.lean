import InfoFlow.Proofs.Scalar.Bounds

namespace InfoFlow

/-- Arithmetic in which the gaps between finite numbers are in the order of the numbers. -/
class LawfulGaps (α : Type) [Scalar α] : Prop where
  sub_le_sub_right {x y z : α} : Scalar.isFinite x = true → Scalar.isFinite y = true →
    Scalar.isFinite z = true → x ≤ y → x - z ≤ y - z
  sub_le_sub_left {x y z : α} : Scalar.isFinite x = true → Scalar.isFinite y = true →
    Scalar.isFinite z = true → x ≤ y → z - y ≤ z - x
  sub_le_abs {x y : α} : Scalar.isFinite x = true → Scalar.isFinite y = true →
    x - y ≤ Scalar.abs (x - y)
  sub_le_abs_comm {x y : α} : Scalar.isFinite x = true → Scalar.isFinite y = true →
    y - x ≤ Scalar.abs (x - y)
  abs_zero : Scalar.abs (0 : α) = 0
  abs_antisymm {x y : α} : Scalar.abs x ≤ Scalar.abs y → Scalar.abs y ≤ Scalar.abs x →
    Scalar.abs x = Scalar.abs y

/-- Arithmetic in which the absolute value of a difference is what is left of the larger number. -/
class LawfulDistances (α : Type) [Scalar α] : Prop where
  abs_sub_le {x y : α} : Scalar.isFinite x = true → Scalar.isFinite y = true → y ≤ x →
    Scalar.abs (x - y) ≤ x - y
  abs_sub_le_comm {x y : α} : Scalar.isFinite x = true → Scalar.isFinite y = true → x ≤ y →
    Scalar.abs (x - y) ≤ y - x

namespace Scalar

variable {α : Type} [Scalar α] [LawfulBounds α]

theorem isFinite_zero : isFinite (0 : α) = true := LawfulBounds.isFinite_ofNat (Nat.zero_le _)

variable [LawfulGaps α] {x y : α}

theorem isNaN_sub (hx : isFinite x = true) (hy : isFinite y = true) : isNaN (x - y) = false :=
  (LawfulBounds.isNaN_of_le (LawfulGaps.sub_le_abs hx hy)).1

theorem isNaN_abs_sub (hx : isFinite x = true) (hy : isFinite y = true) :
    isNaN (abs (x - y)) = false :=
  (LawfulBounds.isNaN_of_le (LawfulGaps.sub_le_abs hx hy)).2

end Scalar

namespace Exact

instance : LawfulGaps Exact where
  sub_le_sub_right {x y z} hx hy hz h := by
    obtain ⟨x, rfl⟩ := isFinite_iff.mp hx
    obtain ⟨y, rfl⟩ := isFinite_iff.mp hy
    obtain ⟨z, rfl⟩ := isFinite_iff.mp hz
    rw [real_le] at h
    rw [real_sub, real_sub, real_le]
    exact sub_le_sub_right h z
  sub_le_sub_left {x y z} hx hy hz h := by
    obtain ⟨x, rfl⟩ := isFinite_iff.mp hx
    obtain ⟨y, rfl⟩ := isFinite_iff.mp hy
    obtain ⟨z, rfl⟩ := isFinite_iff.mp hz
    rw [real_le] at h
    rw [real_sub, real_sub, real_le]
    exact sub_le_sub_left h z
  sub_le_abs {x y} hx hy := by
    obtain ⟨x, rfl⟩ := isFinite_iff.mp hx
    obtain ⟨y, rfl⟩ := isFinite_iff.mp hy
    rw [real_sub, abs_real, real_le]
    exact le_abs_self (x - y)
  sub_le_abs_comm {x y} hx hy := by
    obtain ⟨x, rfl⟩ := isFinite_iff.mp hx
    obtain ⟨y, rfl⟩ := isFinite_iff.mp hy
    rw [real_sub, real_sub, abs_real, real_le, abs_sub_comm]
    exact le_abs_self (y - x)
  abs_zero := by rw [zero_eq, abs_real, abs_zero]
  abs_antisymm {x y} hxy hyx := (beq_iff.mp (LawfulOrder.beq_iff_le_le.mpr ⟨hxy, hyx⟩)).1

instance : LawfulDistances Exact where
  abs_sub_le {x y} hx hy h := by
    obtain ⟨x, rfl⟩ := isFinite_iff.mp hx
    obtain ⟨y, rfl⟩ := isFinite_iff.mp hy
    rw [real_le] at h
    rw [real_sub, abs_real, real_le]
    exact (abs_of_nonneg (sub_nonneg.mpr h)).le
  abs_sub_le_comm {x y} hx hy h := by
    obtain ⟨x, rfl⟩ := isFinite_iff.mp hx
    obtain ⟨y, rfl⟩ := isFinite_iff.mp hy
    rw [real_le] at h
    rw [real_sub, real_sub, abs_real, real_le, abs_sub_comm]
    exact (abs_of_nonneg (sub_nonneg.mpr h)).le

end Exact

namespace Double

open Float.Model Float.Model.UnpackedFloat

variable {x y : Float} {q : ℚ}

theorem rounded_abs (q : ℚ) : rounded |q| = |rounded q| := by
  rcases le_total 0 q with hq | hq
  · rw [abs_of_nonneg hq, rounded_of_nonneg hq, abs_of_nonneg (magnitude_nonneg q)]
  · have hneg : rounded (-q) = -rounded q := rounded_neg q
    rw [rounded_of_nonneg (neg_nonneg.mpr hq)] at hneg
    rw [abs_of_nonpos hq, rounded_of_nonneg (neg_nonneg.mpr hq), ← abs_neg, ← hneg,
      abs_of_nonneg (magnitude_nonneg (-q))]

/-- The absolute value of a rounded number is the rounded absolute value. -/
theorem Rounds.abs (h : Rounds q (unpacked x)) : Rounds |q| (unpacked (Scalar.abs x)) := by
  rw [unpacked_abs]
  generalize unpacked x = u at h
  cases h with
  | finite hbound hfinite hvalue =>
    refine .finite ?_ ?_ ?_
    · rwa [rounded_abs, abs_abs]
    · cases u <;> trivial
    · rw [value_abs, hvalue, rounded_abs]
  | above hlarge =>
    refine .above ?_
    rw [rounded_abs]
    exact hlarge.trans (le_abs_self _)
  | below hlarge =>
    refine .above ?_
    rw [rounded_abs]
    exact (le_neg_of_le_neg hlarge).trans (neg_le_abs _)

/-- Absolute values are the same where they have the same rank. -/
theorem abs_eq_of_rank {u v : UnpackedFloat} (h : rank u.abs = rank v.abs) : u.abs = v.abs := by
  rcases u with _ | _ | _ | ⟨_, m, e, hm⟩ <;> rcases v with _ | _ | _ | ⟨_, n, f, hn⟩ <;>
    simp_all [UnpackedFloat.abs, rank]

instance : LawfulGaps Float where
  sub_le_sub_right {x y z} hx hy hz h := by
    rw [isFinite_iff] at hx hy hz
    rw [le_iff_value hx hy] at h
    exact (rounds_sub hx hz).le (rounds_sub hy hz) (sub_le_sub_right h _)
  sub_le_sub_left {x y z} hx hy hz h := by
    rw [isFinite_iff] at hx hy hz
    rw [le_iff_value hx hy] at h
    exact (rounds_sub hz hy).le (rounds_sub hz hx) (sub_le_sub_left h _)
  sub_le_abs {x y} hx hy := by
    rw [isFinite_iff] at hx hy
    exact (rounds_sub hx hy).le (rounds_sub hx hy).abs (le_abs_self _)
  sub_le_abs_comm {x y} hx hy := by
    rw [isFinite_iff] at hx hy
    refine (rounds_sub hy hx).le (rounds_sub hx hy).abs ?_
    rw [abs_sub_comm]
    exact le_abs_self _
  abs_zero := rfl
  abs_antisymm {x y} hxy hyx := by
    have hbeq := LawfulOrder.beq_iff_le_le.mpr ⟨hxy, hyx⟩
    rw [beq_iff, compare_eq_rank, unpacked_abs, unpacked_abs] at hbeq
    obtain ⟨r, hr, hmap⟩ := Option.bind_eq_some_iff.mp hbeq
    obtain ⟨r', hr', hcmp⟩ := Option.map_eq_some_iff.mp hmap
    rw [cmp_eq_eq_iff] at hcmp
    subst hcmp
    have habs : (unpacked x).abs = (unpacked y).abs := abs_eq_of_rank (hr.trans hr'.symm)
    change Float.ofModel (Float.Model.pack (unpacked x).abs) =
      Float.ofModel (Float.Model.pack (unpacked y).abs)
    rw [habs]

instance : LawfulDistances Float where
  abs_sub_le {x y} hx hy h := by
    rw [isFinite_iff] at hx hy
    rw [le_iff_value hy hx] at h
    exact (rounds_sub hx hy).abs.le (rounds_sub hx hy) (abs_of_nonneg (sub_nonneg.mpr h)).le
  abs_sub_le_comm {x y} hx hy h := by
    rw [isFinite_iff] at hx hy
    rw [le_iff_value hx hy] at h
    refine (rounds_sub hx hy).abs.le (rounds_sub hy hx) ?_
    rw [abs_sub_comm]
    exact (abs_of_nonneg (sub_nonneg.mpr h)).le

end Double

end InfoFlow
