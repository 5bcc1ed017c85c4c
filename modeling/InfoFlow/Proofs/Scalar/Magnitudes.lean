import InfoFlow.Proofs.Scalar.Quotients
import InfoFlow.Proofs.Scalar.Values

namespace InfoFlow

open RealValued (toReal)

/-- Finite, and no further from 0 than a power of two. -/
structure Scalar.HasMagnitude {α : Type} [Scalar α] [RealValued α] (k : ℕ) (x : α) : Prop where
  isFinite : Scalar.isFinite x = true
  abs_le : |toReal x| ≤ 2 ^ k

open Scalar (HasMagnitude)

/-- Arithmetic whose results are within the powers of two that the exact results are within, below its
largest number. -/
class LawfulMagnitudes (α : Type) [Scalar α] [RealValued α] : Prop where
  neg {k : ℕ} {x : α} : HasMagnitude k x → HasMagnitude k (-x)
  add {k : ℕ} {x y : α} : k < 1000 → HasMagnitude k x → HasMagnitude k y → HasMagnitude (k + 1) (x + y)
  sub {k : ℕ} {x y : α} : k < 1000 → HasMagnitude k x → HasMagnitude k y → HasMagnitude (k + 1) (x - y)
  mul {j k : ℕ} {x y : α} : j + k ≤ 1000 → HasMagnitude j x → HasMagnitude k y →
    HasMagnitude (j + k) (x * y)
  div {j k : ℕ} {x y : α} : j + k ≤ 1000 → HasMagnitude j x → Scalar.isFinite y = true →
    1 ≤ 2 ^ k * toReal y → HasMagnitude (j + k) (x / y)
  sum {k : ℕ} {xs : List α} : k ≤ 900 → xs.length ≤ 2 ^ 64 → (∀ x ∈ xs, HasMagnitude k x) →
    HasMagnitude (k + 64) (Scalar.sum xs)
  ofNat {n : ℕ} : n ≤ 2 ^ 64 → HasMagnitude 64 (Scalar.ofNat n : α)
  le_add_one {k : ℕ} {x : α} : k < 1000 → HasMagnitude k x → toReal x ≤ toReal (x + 1)
  one_le_div {j k : ℕ} {x y : α} : j ≤ 1000 → k ≤ 1000 → HasMagnitude j x → HasMagnitude k y →
    1 ≤ toReal x → 1 ≤ toReal y → 1 ≤ 2 ^ k * toReal (x / y)
  half : HasMagnitude 0 (0.5 : α)
  millionth_lt_one : (1e-6 : α) < 1
  half_le_ln2 : 1 ≤ 2 ^ 1 * toReal (Scalar.ln2 : α)

/-- The logarithm of a positive number is finite, and no further from 0 than the number and its reciprocal
together, as the exact one is by far. -/
def LogIsBounded (α : Type) [Scalar α] [RealValued α] : Prop :=
  ∀ x : α, Scalar.isFinite x = true → 0 < toReal x → Scalar.isFinite (Scalar.log x) = true ∧
    |toReal (Scalar.log x)| ≤ toReal x + (toReal x)⁻¹

namespace Scalar

variable {α : Type} [Scalar α] [RealValued α] {j k n : ℕ} {x y : α}

theorem HasMagnitude.mono (h : HasMagnitude j x) (hjk : j ≤ k) : HasMagnitude k x :=
  ⟨h.isFinite, h.abs_le.trans (pow_le_pow_right₀ one_le_two hjk)⟩

theorem HasMagnitude.max (hx : HasMagnitude k x) (hy : HasMagnitude k y) :
    HasMagnitude k (max x y) := by
  rcases max_eq_or x y with h | h
  · rwa [h]
  · rwa [h]

theorem hasMagnitude_zero [LawfulReal α] : HasMagnitude 0 (0 : α) := by
  refine ⟨isFinite_ofNat_word (Nat.zero_le _), ?_⟩
  rw [toReal_zero, abs_zero]
  exact zero_le_one

theorem hasMagnitude_one [LawfulReal α] : HasMagnitude 0 (1 : α) := by
  refine ⟨isFinite_ofNat_word (by norm_num), ?_⟩
  rw [toReal_one, abs_one, pow_zero]

variable [LawfulMagnitudes α]

theorem HasMagnitude.add (hx : HasMagnitude j x) (hy : HasMagnitude k y) (hj : j ≤ n) (hk : k ≤ n)
    (hn : n < 1000) : HasMagnitude (n + 1) (x + y) :=
  LawfulMagnitudes.add hn (hx.mono hj) (hy.mono hk)

theorem HasMagnitude.sub (hx : HasMagnitude j x) (hy : HasMagnitude k y) (hj : j ≤ n) (hk : k ≤ n)
    (hn : n < 1000) : HasMagnitude (n + 1) (x - y) :=
  LawfulMagnitudes.sub hn (hx.mono hj) (hy.mono hk)

/-- A divisor from 1 on makes nothing larger. -/
theorem HasMagnitude.div (hx : HasMagnitude k x) (hk : k ≤ 1000) (hy : Scalar.isFinite y = true)
    (hone : 1 ≤ toReal y) : HasMagnitude k (x / y) :=
  LawfulMagnitudes.div (k := 0) hk hx hy (by rwa [pow_zero, one_mul])

end Scalar

namespace Exact

variable {k : ℕ}

theorem hasMagnitude_iff {z : Exact} : HasMagnitude k z ↔ ∃ x : ℝ, z = real x ∧ |x| ≤ 2 ^ k := by
  constructor
  · rintro ⟨hfinite, habs⟩
    obtain ⟨x, rfl⟩ := isFinite_iff.mp hfinite
    exact ⟨x, rfl, habs⟩
  · rintro ⟨x, rfl, habs⟩
    exact ⟨isFinite_iff.mpr ⟨x, rfl⟩, habs⟩

theorem abs_sum_le {xs : List ℝ} {b : ℝ} (h : ∀ x ∈ xs, |x| ≤ b) : |xs.sum| ≤ xs.length * b := by
  induction xs with
  | nil => simp
  | cons x xs ih =>
    obtain ⟨hx, hxs⟩ := List.forall_mem_cons.mp h
    rw [List.sum_cons, List.length_cons]
    push_cast
    have htriangle := abs_add_le x xs.sum
    have hrest := ih hxs
    linarith

theorem abs_log_le {x : ℝ} (hx : 0 < x) : |Real.log x| ≤ x + x⁻¹ := by
  have habove := Real.log_le_sub_one_of_pos hx
  have hbelow := Real.one_sub_inv_le_log_of_pos hx
  have hinv : 0 < x⁻¹ := inv_pos.mpr hx
  rw [abs_le]
  constructor <;> linarith

theorem logIsBounded : LogIsBounded Exact := by
  intro z hz hpos
  obtain ⟨x, rfl⟩ := isFinite_iff.mp hz
  rw [toReal_real] at hpos
  rw [log_real hpos, toReal_real, toReal_real]
  exact ⟨isFinite_iff.mpr ⟨_, rfl⟩, abs_log_le hpos⟩

instance : LawfulMagnitudes Exact where
  neg {k x} hx := by
    obtain ⟨x, rfl, hx⟩ := hasMagnitude_iff.mp hx
    exact hasMagnitude_iff.mpr ⟨-x, neg_real, by rwa [abs_neg]⟩
  add {k x y} _ hx hy := by
    obtain ⟨x, rfl, hx⟩ := hasMagnitude_iff.mp hx
    obtain ⟨y, rfl, hy⟩ := hasMagnitude_iff.mp hy
    refine hasMagnitude_iff.mpr ⟨x + y, real_add, (abs_add_le x y).trans ?_⟩
    rw [pow_succ]
    linarith
  sub {k x y} _ hx hy := by
    obtain ⟨x, rfl, hx⟩ := hasMagnitude_iff.mp hx
    obtain ⟨y, rfl, hy⟩ := hasMagnitude_iff.mp hy
    refine hasMagnitude_iff.mpr ⟨x - y, real_sub, (abs_sub x y).trans ?_⟩
    rw [pow_succ]
    linarith
  mul {j k x y} _ hx hy := by
    obtain ⟨x, rfl, hx⟩ := hasMagnitude_iff.mp hx
    obtain ⟨y, rfl, hy⟩ := hasMagnitude_iff.mp hy
    refine hasMagnitude_iff.mpr ⟨x * y, real_mul, ?_⟩
    rw [abs_mul, pow_add]
    gcongr
  div {j k x y} _ hx hy hle := by
    obtain ⟨x, rfl, habs⟩ := hasMagnitude_iff.mp hx
    obtain ⟨y, rfl⟩ := isFinite_iff.mp hy
    rw [toReal_real] at hle
    have hpos : 0 < y := pos_of_mul_pos_right (one_pos.trans_le hle) (by positivity)
    refine hasMagnitude_iff.mpr ⟨x / y, real_div hpos.ne', ?_⟩
    rw [abs_div, abs_of_pos hpos, div_le_iff₀ hpos, pow_add, mul_assoc]
    exact habs.trans (le_mul_of_one_le_right (by positivity) hle)
  sum {k xs} _ hlength hxs := by
    have hfinite (x : Exact) (hx : x ∈ xs) : Scalar.isFinite x = true := (hxs x hx).isFinite
    refine hasMagnitude_iff.mpr ⟨_, sum_eq hfinite, (abs_sum_le (b := 2 ^ k) ?_).trans ?_⟩
    · intro x hx
      obtain ⟨z, hz, rfl⟩ := List.mem_map.mp hx
      exact (hxs z hz).abs_le
    · rw [List.length_map, mul_comm, pow_add]
      gcongr
      exact_mod_cast hlength
  ofNat {n} hn := by
    refine hasMagnitude_iff.mpr ⟨n, ofNat_eq, ?_⟩
    rw [Nat.abs_cast]
    exact_mod_cast hn
  le_add_one {k x} _ hx := by
    obtain ⟨x, rfl, _⟩ := hasMagnitude_iff.mp hx
    rw [one_eq, real_add, toReal_real, toReal_real]
    linarith
  one_le_div {j k x y} _ _ hx hy hxone hyone := by
    obtain ⟨x, rfl, _⟩ := hasMagnitude_iff.mp hx
    obtain ⟨y, rfl, habs⟩ := hasMagnitude_iff.mp hy
    rw [toReal_real] at hxone hyone
    have hpos : 0 < y := by linarith
    rw [real_div hpos.ne', toReal_real, mul_div_assoc', le_div_iff₀ hpos, one_mul]
    rw [abs_of_pos hpos] at habs
    exact habs.trans (le_mul_of_one_le_right (by positivity) hxone)
  half := hasMagnitude_iff.mpr ⟨1 / 2, half_eq, by norm_num [abs_of_pos]⟩
  millionth_lt_one := by
    rw [ofScientific_eq, one_eq, real_lt]
    norm_num
  half_le_ln2 := by
    rw [ln2_eq, toReal_real]
    norm_num

end Exact

namespace Double

open Float.Model Float.Model.UnpackedFloat

variable {x y : Float} {k : ℕ} {q : ℚ}

theorem hasMagnitude_iff :
    HasMagnitude k x ↔ (unpacked x).isFinite = true ∧ |value (unpacked x)| ≤ 2 ^ k := by
  have habs : |toReal x| ≤ 2 ^ k ↔ |value (unpacked x)| ≤ 2 ^ k := by
    rw [toReal_eq]
    exact_mod_cast Iff.rfl
  constructor
  · rintro ⟨hfinite, hle⟩
    exact ⟨isFinite_iff.mp hfinite, habs.mp hle⟩
  · rintro ⟨hfinite, hle⟩
    exact ⟨isFinite_iff.mpr hfinite, habs.mpr hle⟩

theorem isStored_two_pow_nat (hk : k ≤ 1000) : IsStored (2 ^ k) := by
  have hstored := isStored_two_pow (k := k) (by omega) (by omega)
  rwa [zpow_natCast] at hstored

/-- Rounding does not leave the powers of two that the exact result is within. -/
theorem hasMagnitude_of_rounds (h : Rounds q (unpacked x)) (hk : k ≤ 1000) (hq : |q| ≤ 2 ^ k) :
    HasMagnitude k x :=
  hasMagnitude_iff.mpr (h.abs_value_le (isStored_two_pow_nat hk) hq)

/-- A sum that is large enough does not change any more: what is added is below a quarter of its last bit. -/
theorem rounded_two_zpow_add {k : ℤ} (hk : -1074 ≤ k) :
    rounded (2 ^ (k + 54) + 2 ^ k) = 2 ^ (k + 54) := by
  set q : ℚ := 2 ^ (k + 54) + 2 ^ k with hq
  have hpower : (0 : ℚ) < 2 ^ k := by positivity
  have hpos : 0 < q := by positivity
  have hlog : Int.log 2 q = k + 54 := by
    have hlt : (2 : ℚ) ^ k < 2 ^ (k + 54) := zpow_lt_zpow_right₀ one_lt_two (by omega)
    rw [log_eq_iff hpos, zpow_add_one₀ two_ne_zero, hq]
    constructor <;> linarith
  have hunit : unitExponent q = k + 2 := by
    unfold unitExponent
    rw [hlog]
    omega
  have hlarge : (2 : ℚ) ^ (k + 54) = 2 ^ 52 * 2 ^ (k + 2) := by
    rw [← zpow_natCast, ← zpow_add₀ two_ne_zero]
    congr 1
    push_cast
    ring
  have hquotient : q / 2 ^ unitExponent q = 2 ^ 52 + 1 / 4 := by
    rw [hunit, div_eq_iff (by positivity), hq, hlarge, zpow_add₀ two_ne_zero k]
    ring
  have hnearest : nearestEven (2 ^ 52 + 1 / 4) = 2 ^ 52 := by
    have hfloor : ⌊(2 ^ 52 + 1 / 4 : ℚ)⌋₊ = 2 ^ 52 := by
      rw [Nat.floor_eq_iff (by norm_num)]
      norm_num
    unfold nearestEven
    rw [hfloor]
    norm_num
  rw [rounded_of_nonneg hpos.le, magnitude, hquotient, hnearest, hunit, hlarge, Nat.cast_pow,
    Nat.cast_ofNat]

/-- A sum of terms of one magnitude stops growing before it gets out of bounds. -/
theorem abs_value_foldl_add_le {k : ℤ} (hlow : -1074 ≤ k) (hhigh : k ≤ 960) {xs : List Float} {start : Float}
    (hxs : ∀ x ∈ xs, (unpacked x).isFinite = true ∧ |value (unpacked x)| ≤ 2 ^ k)
    (hstart : (unpacked start).isFinite = true ∧ |value (unpacked start)| ≤ 2 ^ (k + 54)) :
    (unpacked (xs.foldl (· + ·) start)).isFinite = true ∧
      |value (unpacked (xs.foldl (· + ·) start))| ≤ 2 ^ (k + 54) := by
  induction xs generalizing start with
  | nil => exact hstart
  | cons x xs ih =>
    obtain ⟨⟨hfinite', hle'⟩, hrest⟩ := List.forall_mem_cons.mp hxs
    obtain ⟨hfinite, hle⟩ := hstart
    have hsum := rounds_add hfinite hfinite'
    have habs : |value (unpacked start) + value (unpacked x)| ≤ 2 ^ (k + 54) + 2 ^ k :=
      (abs_add_le _ _).trans (add_le_add hle hle')
    have hwide : (2 : ℚ) ^ (k + 54) + 2 ^ k ≤ 2 ^ (k + 55) := by
      have hlt : (2 : ℚ) ^ k < 2 ^ (k + 54) := zpow_lt_zpow_right₀ one_lt_two (by omega)
      rw [show k + 55 = k + 54 + 1 by ring, zpow_add_one₀ two_ne_zero]
      linarith
    have hsumfinite := hsum.isFinite (isStored_two_pow (by omega) (by omega)) (habs.trans hwide)
    apply ih hrest
    refine ⟨hsumfinite, ?_⟩
    rw [hsum.value_eq hsumfinite, ← rounded_abs, ← rounded_two_zpow_add hlow]
    exact rounded_mono habs

theorem hasMagnitude_foldl_add {xs : List Float} {start : Float} (hk : k ≤ 900)
    (hxs : ∀ x ∈ xs, HasMagnitude k x) (hstart : HasMagnitude (k + 54) start) :
    HasMagnitude (k + 54) (xs.foldl (· + ·) start) := by
  have hpower (n : ℕ) : (2 : ℚ) ^ n = 2 ^ (n : ℤ) := (zpow_natCast 2 n).symm
  simp only [hasMagnitude_iff, hpower, Nat.cast_add, Nat.cast_ofNat] at hxs hstart ⊢
  exact abs_value_foldl_add_le (by omega) (by omega) hxs hstart

/-- Adding 1 does not make a number smaller, even where it is too small to count. -/
theorem toReal_le_add_one (hk : k < 1000) (hx : HasMagnitude k x) : toReal x ≤ toReal (x + 1) := by
  obtain ⟨hfinite, hle⟩ := hasMagnitude_iff.mp hx
  have hsum := rounds_add (y := 1) hfinite rfl
  rw [value_one] at hsum
  have hone : (1 : ℚ) ≤ 2 ^ k := one_le_pow₀ one_le_two
  have hlarge : |value (unpacked x) + 1| ≤ 2 ^ (k + 1) := by
    refine (abs_add_le _ _).trans ?_
    rw [abs_one, pow_succ]
    linarith
  have hsumfinite := hsum.isFinite (isStored_two_pow_nat hk) hlarge
  have hmono : rounded (value (unpacked x)) ≤ rounded (value (unpacked x) + 1) :=
    rounded_mono (by linarith)
  rw [rounded_of_isStored (isStored_value x), ← hsum.value_eq hsumfinite] at hmono
  rw [toReal_eq, toReal_eq]
  exact_mod_cast hmono

/-- The quotient of numbers from 1 on is not below the reciprocal of the largest divisor. -/
theorem one_le_mul_div {j : ℕ} (hj : j ≤ 1000) (hk : k ≤ 1000) (hx : HasMagnitude j x)
    (hy : HasMagnitude k y) (hxone : 1 ≤ toReal x) (hyone : 1 ≤ toReal y) :
    1 ≤ 2 ^ k * toReal (x / y) := by
  obtain ⟨hfinite, hle⟩ := hasMagnitude_iff.mp hx
  obtain ⟨hfinite', hle'⟩ := hasMagnitude_iff.mp hy
  rw [toReal_eq] at hxone hyone
  have hxone : 1 ≤ value (unpacked x) := by exact_mod_cast hxone
  have hyone : 1 ≤ value (unpacked y) := by exact_mod_cast hyone
  have hpos : 0 < value (unpacked y) := by linarith
  have hquotient := rounds_div hfinite hfinite' hpos.ne'
  have hlarge : |value (unpacked x) / value (unpacked y)| ≤ 2 ^ j := by
    rw [abs_div, abs_of_pos hpos, div_le_iff₀ hpos]
    exact hle.trans (le_mul_of_one_le_right (by positivity) hyone)
  have hquotientfinite := hquotient.isFinite (isStored_two_pow_nat hj) hlarge
  have hleast : (2 : ℚ) ^ (-k : ℤ) ≤ value (unpacked x) / value (unpacked y) := by
    rw [abs_of_pos hpos] at hle'
    rw [zpow_neg, zpow_natCast, inv_eq_one_div]
    gcongr
  have hmono := rounded_mono hleast
  rw [rounded_of_isStored (isStored_two_pow (by omega) (by omega)),
    ← hquotient.value_eq hquotientfinite, zpow_neg, zpow_natCast, inv_le_iff_one_le_mul₀' (by positivity)]
    at hmono
  rw [toReal_eq]
  exact_mod_cast hmono

instance : LawfulMagnitudes Float where
  neg {k x} hx := by
    obtain ⟨hfinite, hle⟩ := hasMagnitude_iff.mp hx
    refine hasMagnitude_iff.mpr ⟨isFinite_neg hfinite, ?_⟩
    rwa [unpacked_neg, value_neg, abs_neg]
  add {k x y} hk hx hy := by
    obtain ⟨hfinite, hle⟩ := hasMagnitude_iff.mp hx
    obtain ⟨hfinite', hle'⟩ := hasMagnitude_iff.mp hy
    refine hasMagnitude_of_rounds (rounds_add hfinite hfinite') hk ((abs_add_le _ _).trans ?_)
    rw [pow_succ]
    linarith
  sub {k x y} hk hx hy := by
    obtain ⟨hfinite, hle⟩ := hasMagnitude_iff.mp hx
    obtain ⟨hfinite', hle'⟩ := hasMagnitude_iff.mp hy
    refine hasMagnitude_of_rounds (rounds_sub hfinite hfinite') hk ((abs_sub _ _).trans ?_)
    rw [pow_succ]
    linarith
  mul {j k x y} hjk hx hy := by
    obtain ⟨hfinite, hle⟩ := hasMagnitude_iff.mp hx
    obtain ⟨hfinite', hle'⟩ := hasMagnitude_iff.mp hy
    refine hasMagnitude_of_rounds (rounds_mul hfinite hfinite') hjk ?_
    rw [abs_mul, pow_add]
    gcongr
  div {j k x y} hjk hx hy hone := by
    obtain ⟨hfinite, hle⟩ := hasMagnitude_iff.mp hx
    have hfinite' := isFinite_iff.mp hy
    rw [toReal_eq] at hone
    have hone : 1 ≤ 2 ^ k * value (unpacked y) := by exact_mod_cast hone
    have hpos : 0 < value (unpacked y) := pos_of_mul_pos_right (one_pos.trans_le hone) (by positivity)
    refine hasMagnitude_of_rounds (rounds_div hfinite hfinite' hpos.ne') hjk ?_
    rw [abs_div, abs_of_pos hpos, div_le_iff₀ hpos, pow_add, mul_assoc]
    exact hle.trans (le_mul_of_one_le_right (by positivity) hone)
  sum {k xs} hk _ hxs :=
    (hasMagnitude_foldl_add hk hxs (Scalar.hasMagnitude_zero.mono (Nat.zero_le _))).mono (by omega)
  ofNat {n} hn := by
    refine hasMagnitude_of_rounds (rounds_ofNat n) (by norm_num) ?_
    rw [Nat.abs_cast]
    exact_mod_cast hn
  le_add_one := toReal_le_add_one
  one_le_div := one_le_mul_div
  half := by
    refine hasMagnitude_iff.mpr ⟨rfl, ?_⟩
    change |value (unpacked 0.5)| ≤ 2 ^ 0
    rw [unpacked_half]
    norm_num [value, abs_of_pos]
  millionth_lt_one := by
    rw [lt_iff]
    rfl
  half_le_ln2 := by
    have hln2 : unpacked Scalar.ln2 = .finite .positive 6243314768165359 (-53) (by decide) := rfl
    rw [toReal_eq, hln2]
    norm_num [value]

end Double

end InfoFlow
