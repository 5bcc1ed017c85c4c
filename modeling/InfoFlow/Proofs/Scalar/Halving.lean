import InfoFlow.Proofs.Scalar.DoubleSteps
import InfoFlow.Proofs.Scalar.Values

namespace InfoFlow

open RealValued (toReal)

/-- Arithmetic that is fine enough, up to `2 ^ 50`, for an interval to be halved until it is shorter than 1. -/
class LawfulHalving (α : Type) [Scalar α] [RealValued α] : Prop where
  isFinite_midpoint {x y : α} : Scalar.isFinite x = true → Scalar.isFinite y = true →
    |toReal x| ≤ 2 ^ 50 → |toReal y| ≤ 2 ^ 50 → Scalar.isFinite (0.5 * (x + y)) = true
  toReal_midpoint {x y : α} : Scalar.isFinite x = true → Scalar.isFinite y = true →
    |toReal x| ≤ 2 ^ 50 → |toReal y| ≤ 2 ^ 50 → toReal x ≤ toReal y →
    toReal x ≤ toReal (0.5 * (x + y)) ∧ toReal (0.5 * (x + y)) ≤ toReal y ∧
      |toReal (0.5 * (x + y)) - (toReal x + toReal y) / 2| ≤ 1 / 4
  sub_le_of_isWithinSteps {x y : α} : Scalar.isFinite x = true → Scalar.isFinite y = true →
    |toReal x| ≤ 2 ^ 50 → |toReal y| ≤ 2 ^ 50 → Scalar.isWithinSteps 2 x y = true →
    toReal y - toReal x ≤ 1 / 4
  toReal_double {x : α} {n : ℕ} : n < 50 → Scalar.isFinite x = true → toReal x = 2 ^ n →
    Scalar.isFinite (x * 2) = true ∧ toReal (x * 2) = 2 ^ (n + 1)

namespace Exact

instance : LawfulHalving Exact where
  isFinite_midpoint {x y} hx hy _ _ := by
    obtain ⟨x, rfl⟩ := isFinite_iff.mp hx
    obtain ⟨y, rfl⟩ := isFinite_iff.mp hy
    rw [half_eq, real_add, real_mul]
    exact isFinite_iff.mpr ⟨_, rfl⟩
  toReal_midpoint {x y} hx hy _ _ hle := by
    obtain ⟨x, rfl⟩ := isFinite_iff.mp hx
    obtain ⟨y, rfl⟩ := isFinite_iff.mp hy
    rw [half_eq, real_add, real_mul]
    simp only [toReal_real] at hle ⊢
    have hmid : 1 / 2 * (x + y) - (x + y) / 2 = 0 := by ring
    rw [hmid]
    refine ⟨by linarith, by linarith, by norm_num⟩
  sub_le_of_isWithinSteps {x y} hx hy _ _ h := by
    have hequal : Exact.Equal x y := by
      by_contra hne
      have hsteps : Scalar.steps x y = UInt64.size := if_neg hne
      have hbeq : (x == y) = false := Bool.eq_false_of_not_eq_true (mt beq_iff.mp hne)
      rw [Scalar.isWithinSteps, hbeq, hsteps] at h
      exact absurd h (by decide)
    rw [hequal.1, sub_self]
    norm_num
  toReal_double {x n} _ hx hvalue := by
    obtain ⟨x, rfl⟩ := isFinite_iff.mp hx
    have htwo : (2 : Exact) = real 2 := by
      change real ((2 : ℕ) : ℝ) = real 2
      norm_num
    rw [toReal_real] at hvalue
    rw [htwo, real_mul, toReal_real, hvalue, pow_succ]
    exact ⟨isFinite_iff.mpr ⟨_, rfl⟩, rfl⟩

end Exact

namespace Double

open Float.Model Float.Model.UnpackedFloat

section Errors

variable {q : ℚ} {k : ℤ}

theorem isStored_two_zpow (hlow : -1074 ≤ k) (hhigh : k ≤ 971) : IsStored (2 ^ k) := by
  simpa using isStored_mul_zpow (m := 1) (by norm_num) hlow hhigh

theorem abs_nearestEven_sub_le (hq : 0 ≤ q) : |(nearestEven q : ℚ) - q| ≤ 1 / 2 := by
  have hfloor := Nat.floor_le hq
  have hceil := Nat.lt_floor_add_one q
  unfold nearestEven
  split_ifs with hlow hmiddle
  · rw [abs_le]
    constructor <;> linarith
  · rcases Nat.mod_two_eq_zero_or_one ⌊q⌋₊ with heven | hodd
    · rw [heven, abs_le]
      push_cast
      constructor <;> linarith
    · rw [hodd, abs_le]
      push_cast
      constructor <;> linarith
  · have hhigh : ⌊q⌋₊ + 1 / 2 ≤ q := not_lt.mp hlow
    rw [abs_le]
    push_cast
    constructor <;> linarith

/-- A number is rounded by no more than half the distance of the doubles around it. -/
theorem abs_rounded_sub_le (hlow : -1074 ≤ k) (hhigh : k ≤ 970) (hq : |q| ≤ 2 ^ (53 + k)) :
    |rounded q - q| ≤ 2 ^ k / 2 := by
  have hpositive {q : ℚ} (hpos : 0 < q) (hq : q ≤ 2 ^ (53 + k)) : |rounded q - q| ≤ 2 ^ k / 2 := by
    obtain rfl | hlt := hq.eq_or_lt
    · rw [rounded_of_isStored (isStored_two_pow (by omega) (by omega)), sub_self, abs_zero]
      positivity
    have hunit : unitExponent q ≤ k := by
      have hlog := (Int.lt_zpow_iff_log_lt (b := 2) (by norm_num) (x := 53 + k) hpos).mp
        (by rwa [Nat.cast_ofNat])
      exact max_le (by omega) hlow
    have hpower : (0 : ℚ) < 2 ^ unitExponent q := by positivity
    have herror := abs_nearestEven_sub_le (q := q / 2 ^ unitExponent q) (by positivity)
    rw [rounded_of_nonneg hpos.le, magnitude]
    calc |(nearestEven (q / 2 ^ unitExponent q) : ℚ) * 2 ^ unitExponent q - q|
        = |(nearestEven (q / 2 ^ unitExponent q) : ℚ) - q / 2 ^ unitExponent q| * 2 ^ unitExponent q := by
          rw [← abs_of_pos hpower, ← abs_mul, sub_mul, abs_of_pos hpower, div_mul_cancel₀ q hpower.ne']
      _ ≤ 1 / 2 * 2 ^ k := by
          gcongr
          exact one_le_two
      _ = 2 ^ k / 2 := by ring
  rcases lt_trichotomy q 0 with hneg | rfl | hpos
  · have hopposite := hpositive (neg_pos.mpr hneg) (by rwa [abs_of_neg hneg] at hq)
    rwa [rounded_neg, ← neg_sub', abs_neg] at hopposite
  · rw [rounded_of_isStored isStored_zero, sub_self, abs_zero]
    positivity
  · exact hpositive hpos (by rwa [abs_of_pos hpos] at hq)

/-- Twice a double is a double, unless it is too large. -/
theorem IsStored.two_mul (h : IsStored q) (hq : |q| ≤ 2 ^ 50) : IsStored (2 * q) := by
  obtain ⟨m, e, hcanonical, -, habs⟩ := h
  obtain rfl | hm := m.eq_zero_or_pos
  · rw [Nat.cast_zero, zero_mul, abs_eq_zero] at habs
    rw [habs, mul_zero]
    exact isStored_zero
  have hexponent : e ≤ 50 := by
    by_contra hlarge
    have hone : (1 : ℚ) ≤ m := by exact_mod_cast hm
    have hpower : (2 : ℚ) ^ (50 : ℤ) < 2 ^ e := zpow_lt_zpow_right₀ (by norm_num) (not_le.mp hlarge)
    have hle : (2 : ℚ) ^ e ≤ m * 2 ^ e := le_mul_of_one_le_left (by positivity) hone
    rw [habs] at hq
    norm_num at hpower hq
    linarith
  have hdouble : |2 * q| = m * 2 ^ (e + 1) := by
    rw [abs_mul, habs, abs_two, zpow_add_one₀ two_ne_zero]
    ring
  have hstored : IsStored (m * 2 ^ (e + 1)) :=
    isStored_mul_zpow hcanonical.mantissa_lt (by have := hcanonical.exponent_ge; omega) (by omega)
  rw [← hdouble] at hstored
  rcases abs_choice (2 * q) with hsign | hsign <;> rw [hsign] at hstored
  · exact hstored
  · simpa using hstored.neg

end Errors

section Midpoints

variable {x y : Float}

theorem value_half : value (unpacked 0.5) = 1 / 2 := by
  rw [unpacked_half]
  norm_num [value]

theorem value_two : value (unpacked 2) = 2 := by
  rw [show unpacked 2 = .finite .positive (2 ^ 52) (-51) (by decide) from rfl]
  norm_num [value]

theorem rounds_half (hx : (unpacked x).isFinite = true) :
    Rounds (value (unpacked x) / 2) (unpacked (x / 2)) := by
  have hquotient := rounds_div (y := 2) hx rfl (by rw [value_two]; norm_num)
  rwa [value_two] at hquotient

/-- Half of the least positive double is rounded to 0. -/
theorem rounded_half_least : rounded (2 ^ (-1074 : ℤ) / 2) = 0 := by
  have hpower : (2 : ℚ) ^ (-1074 : ℤ) / 2 = (2 : ℕ) ^ (-1075 : ℤ) := by
    rw [show (-1074 : ℤ) = -1075 + 1 by norm_num, zpow_add_one₀ two_ne_zero]
    simp
  have hunit : unitExponent (2 ^ (-1074 : ℤ) / 2) = -1074 := by
    rw [unitExponent, hpower, Int.log_zpow (by norm_num)]
    norm_num
  have hquotient : (2 : ℚ) ^ (-1074 : ℤ) / 2 / 2 ^ (-1074 : ℤ) = 1 / 2 := by
    rw [div_right_comm, div_self (zpow_ne_zero _ two_ne_zero)]
  rw [rounded_of_nonneg (by positivity), magnitude, hunit, hquotient]
  norm_num [nearestEven]

/-- A midpoint is rounded twice, after the addition and after the multiplication, and neither time past one
of the ends. -/
theorem value_midpoint (hx : (unpacked x).isFinite = true) (hy : (unpacked y).isFinite = true)
    (hxle : |value (unpacked x)| ≤ 2 ^ 50) (hyle : |value (unpacked y)| ≤ 2 ^ 50) :
    (unpacked (0.5 * (x + y))).isFinite = true ∧ (value (unpacked x) ≤ value (unpacked y) →
      value (unpacked x) ≤ value (unpacked (0.5 * (x + y))) ∧
      value (unpacked (0.5 * (x + y))) ≤ value (unpacked y) ∧
      |value (unpacked (0.5 * (x + y))) - (value (unpacked x) + value (unpacked y)) / 2| ≤ 1 / 4) := by
  have hstoredx := isStored_value x
  have hstoredy := isStored_value y
  have hsumle : |value (unpacked x) + value (unpacked y)| ≤ 2 ^ (51 : ℤ) := by
    refine (abs_add_le _ _).trans ?_
    norm_num at hxle hyle ⊢
    linarith
  have hsum := rounds_add hx hy
  have hsumerror := abs_rounded_sub_le (k := -2) (by norm_num) (by norm_num) hsumle
  obtain ⟨hsumfinite, hsumabs⟩ := hsum.abs_value_le (r := 2 ^ (51 : ℤ))
    (isStored_two_pow (by norm_num) (by norm_num)) hsumle
  have hsumvalue := hsum.value_eq hsumfinite
  have hmiddle := rounds_mul (x := 0.5) rfl hsumfinite
  rw [value_half] at hmiddle
  have hhalfle : |1 / 2 * value (unpacked (x + y))| ≤ 2 ^ (50 : ℤ) := by
    rw [abs_mul, abs_of_pos (by norm_num : (0 : ℚ) < 1 / 2)]
    norm_num at hsumabs ⊢
    linarith
  have hmiddlefinite := hmiddle.isFinite (isStored_two_pow (by norm_num) (by norm_num)) hhalfle
  have hmiddleerror := abs_rounded_sub_le (k := -3) (by norm_num) (by norm_num) hhalfle
  refine ⟨hmiddlefinite, fun hle => ?_⟩
  rw [hmiddle.value_eq hmiddlefinite]
  have hsumbelow : 2 * value (unpacked x) ≤ value (unpacked (x + y)) := by
    rw [hsumvalue, ← rounded_of_isStored (hstoredx.two_mul hxle)]
    exact rounded_mono (by linarith)
  have hsumabove : value (unpacked (x + y)) ≤ 2 * value (unpacked y) := by
    rw [hsumvalue, ← rounded_of_isStored (hstoredy.two_mul hyle)]
    exact rounded_mono (by linarith)
  refine ⟨?_, ?_, ?_⟩
  · conv_lhs => rw [← rounded_of_isStored hstoredx]
    exact rounded_mono (by linarith)
  · conv_rhs => rw [← rounded_of_isStored hstoredy]
    exact rounded_mono (by linarith)
  · rw [← hsumvalue] at hsumerror
    norm_num [abs_le] at hsumerror hmiddleerror ⊢
    constructor <;> linarith

end Midpoints

section Steps

variable {n : ℕ} {x y : Float}

/-- The double with an ordered bit pattern: those from `2 ^ 63` on are not negative. -/
def orderedValue (n : ℕ) : ℚ :=
  if 2 ^ 63 ≤ n then patternValue (n - 2 ^ 63) else -patternValue (2 ^ 63 - 1 - n)

theorem two_zpow_patternExponent_le (h : patternValue n < 2 ^ 50) :
    (2 : ℚ) ^ patternExponent n ≤ 1 / 8 := by
  have hexponent : patternExponent n ≤ -3 := by
    by_contra hlarge
    have hfull : 2 ^ 52 ≤ patternMantissa n := by
      refine (isCanonical_pattern n).normal_or_least.resolve_left ?_
      omega
    have hmantissa : (2 ^ 52 : ℚ) ≤ patternMantissa n := by exact_mod_cast hfull
    have hpower : (2 : ℚ) ^ (-2 : ℤ) ≤ 2 ^ patternExponent n :=
      zpow_le_zpow_right₀ (by norm_num) (by omega)
    have hproduct : (2 ^ 52 : ℚ) * 2 ^ (-2 : ℤ) ≤ patternValue n :=
      mul_le_mul hmantissa hpower (by positivity) (by positivity)
    norm_num at hproduct h
    linarith
  calc (2 : ℚ) ^ patternExponent n ≤ 2 ^ (-3 : ℤ) := zpow_le_zpow_right₀ (by norm_num) hexponent
    _ = 1 / 8 := by norm_num

/-- The next ordered pattern is that of the next double; the two zeros have patterns of their own. -/
theorem orderedValue_succ (n : ℕ) : orderedValue n ≤ orderedValue (n + 1) ∧
    (|orderedValue n| ≤ 2 ^ 50 → |orderedValue (n + 1)| ≤ 2 ^ 50 →
      orderedValue (n + 1) ≤ orderedValue n + 1 / 8) := by
  have hzero : patternValue 0 = 0 := by simp [patternValue, patternMantissa]
  unfold orderedValue
  rcases lt_trichotomy (n + 1) (2 ^ 63) with hneg | heq | hpos
  · obtain ⟨m, hm⟩ : ∃ m, 2 ^ 63 - 1 - n = m + 1 := ⟨2 ^ 63 - 2 - n, by omega⟩
    rw [if_neg (by omega), if_neg (by omega), hm, show 2 ^ 63 - 1 - (n + 1) = m by omega]
    refine ⟨neg_le_neg (patternValue_lt_succ m).le, fun hle _ => ?_⟩
    rw [abs_neg, abs_of_nonneg (patternValue_nonneg _)] at hle
    have hunit := two_zpow_patternExponent_le ((patternValue_lt_succ m).trans_le hle)
    rw [patternValue_succ]
    linarith
  · rw [if_neg (by omega), if_pos heq.ge, heq, Nat.sub_self, show 2 ^ 63 - 1 - n = 0 by omega, hzero]
    norm_num
  · obtain ⟨m, rfl⟩ : ∃ m, n = 2 ^ 63 + m := ⟨n - 2 ^ 63, by omega⟩
    rw [if_pos (by omega), if_pos (by omega), Nat.add_sub_cancel_left,
      show 2 ^ 63 + m + 1 - 2 ^ 63 = m + 1 by omega]
    refine ⟨(patternValue_lt_succ m).le, fun _ hle => ?_⟩
    rw [abs_of_nonneg (patternValue_nonneg _)] at hle
    have hunit := two_zpow_patternExponent_le ((patternValue_lt_succ m).trans_le hle)
    rw [patternValue_succ]
    linarith

theorem xor_two_pow {b k : ℕ} (h : b < 2 ^ k) : b ^^^ 2 ^ k = 2 ^ k + b := by
  have hor := Nat.two_pow_add_eq_or_of_lt h 1
  rw [Nat.mul_one] at hor
  rw [hor]
  apply Nat.eq_of_testBit_eq
  intro i
  rw [Nat.testBit_xor, Nat.testBit_or, Bool.xor_comm]
  rcases Nat.lt_or_ge i k with hi | hi
  · simp [hi.ne']
  · simp [Nat.testBit_lt_two_pow (h.trans_le (Nat.pow_le_pow_right (by norm_num) hi))]

/-- Ordered bit patterns of finite doubles are far from both ends of the words. -/
theorem toNat_orderedBits (hx : (unpacked x).isFinite = true) :
    value (unpacked x) = orderedValue (Scalar.orderedBits x).toNat ∧
      2 ^ 52 ≤ (Scalar.orderedBits x).toNat ∧ (Scalar.orderedBits x).toNat < 2 ^ 64 - 2 ^ 52 := by
  have hpattern := toNat_toBits_lt hx
  have hbits := x.toBits.toNat_lt
  have hsign : (x.toBits >>> 63 == 1) = true ↔ ¬ x.toBits.toNat < 2 ^ 63 := by
    have hshift : (x.toBits >>> 63).toNat = x.toBits.toNat / 2 ^ 63 := by
      rw [UInt64.toNat_shiftRight, Nat.shiftRight_eq_div_pow]
      rfl
    have hone : (1 : UInt64).toNat = 1 := rfl
    rw [beq_iff_eq, ← UInt64.toNat_inj, hshift, hone]
    omega
  rw [value_eq_patternValue hx]
  unfold Scalar.orderedBits orderedValue
  dsimp only
  by_cases hpos : x.toBits.toNat < 2 ^ 63
  · have hxor : (x.toBits ^^^ 0x8000000000000000).toNat = 2 ^ 63 + x.toBits.toNat := by
      rw [UInt64.toNat_xor]
      exact xor_two_pow hpos
    rw [if_neg (mt hsign.mp (not_not.mpr hpos)), hxor, if_pos hpos, if_pos (by omega),
      show 2 ^ 63 + x.toBits.toNat - 2 ^ 63 = x.toBits.toNat % 2 ^ 63 by omega]
    refine ⟨rfl, by omega, by omega⟩
  · have hnot : (~~~x.toBits).toNat = 2 ^ 64 - 1 - x.toBits.toNat := UInt64.toNat_not _
    rw [if_pos (hsign.mpr hpos), hnot, if_neg hpos, if_neg (by omega),
      show 2 ^ 63 - 1 - (2 ^ 64 - 1 - x.toBits.toNat) = x.toBits.toNat % 2 ^ 63 by omega]
    refine ⟨rfl, by omega, by omega⟩

theorem orderedValue_mono {m n : ℕ} (h : m ≤ n) : orderedValue m ≤ orderedValue n :=
  monotone_nat_of_le_succ (fun n => (orderedValue_succ n).1) h

/-- The difference of the ordered patterns does not wrap around for finite doubles. -/
theorem value_sub_le_of_steps (hx : (unpacked x).isFinite = true) (hy : (unpacked y).isFinite = true)
    (hxle : |value (unpacked x)| ≤ 2 ^ 50) (hyle : |value (unpacked y)| ≤ 2 ^ 50)
    (h : Scalar.stepsOfFloat x y ≤ 2) : value (unpacked y) - value (unpacked x) ≤ 1 / 4 := by
  obtain ⟨hvaluex, hlowx, hhighx⟩ := toNat_orderedBits hx
  obtain ⟨hvaluey, hlowy, hhighy⟩ := toNat_orderedBits hy
  have hdifference : (Scalar.orderedBits y).toNat ≤ (Scalar.orderedBits x).toNat + 2 := by
    unfold Scalar.stepsOfFloat at h
    have hsigned (w : UInt64) : w.toInt64.toInt = (w.toNat : ℤ).bmod (2 ^ 64) :=
      BitVec.toInt_eq_toNat_bmod w.toBitVec
    rw [hsigned, UInt64.toNat_sub, Int.bmod_def] at h
    omega
  rw [hvaluex] at hxle
  rw [hvaluey] at hyle
  rw [hvaluex, hvaluey]
  generalize (Scalar.orderedBits x).toNat = m at *
  generalize (Scalar.orderedBits y).toNat = n at *
  rcases Nat.lt_or_ge m n with hlt | hge
  · have hmiddle : |orderedValue (m + 1)| ≤ 2 ^ 50 := by
      have hbelow := orderedValue_mono (Nat.le_succ m)
      have habove := orderedValue_mono (Nat.succ_le_of_lt hlt)
      rw [abs_le] at hxle hyle ⊢
      exact ⟨hxle.1.trans hbelow, habove.trans hyle.2⟩
    have hfirst := (orderedValue_succ m).2 hxle hmiddle
    obtain rfl | rfl : n = m + 1 ∨ n = m + 2 := by omega
    · linarith
    · have hsecond := (orderedValue_succ (m + 1)).2 hmiddle hyle
      linarith
  · have hle := orderedValue_mono hge
    linarith

end Steps

instance : LawfulHalving Float where
  isFinite_midpoint {x y} hx hy hxle hyle := by
    rw [isFinite_iff] at hx hy ⊢
    rw [toReal_eq] at hxle hyle
    exact (value_midpoint hx hy (by exact_mod_cast hxle) (by exact_mod_cast hyle)).1
  toReal_midpoint {x y} hx hy hxle hyle hle := by
    rw [isFinite_iff] at hx hy
    rw [toReal_eq] at hxle hyle
    rw [toReal_eq, toReal_eq] at hle
    obtain ⟨hlow, hhigh, herror⟩ := (value_midpoint hx hy (by exact_mod_cast hxle)
      (by exact_mod_cast hyle)).2 (by exact_mod_cast hle)
    have herror := (Rat.cast_le (K := ℝ)).mpr herror
    push_cast at herror
    rw [toReal_eq, toReal_eq, toReal_eq]
    exact ⟨by exact_mod_cast hlow, by exact_mod_cast hhigh, herror⟩
  sub_le_of_isWithinSteps {x y} hx hy hxle hyle h := by
    rw [isFinite_iff] at hx hy
    rw [toReal_eq] at hxle hyle
    rw [toReal_eq, toReal_eq]
    have hle : value (unpacked y) - value (unpacked x) ≤ 1 / 4 := by
      rcases Bool.or_eq_true_iff.mp h with hbeq | hsteps
      · obtain ⟨_, hge⟩ := LawfulOrder.beq_iff_le_le.mp hbeq
        rw [le_iff_value hy hx] at hge
        linarith
      · exact value_sub_le_of_steps hx hy (by exact_mod_cast hxle) (by exact_mod_cast hyle)
          (of_decide_eq_true hsteps)
    have hle := (Rat.cast_le (K := ℝ)).mpr hle
    push_cast at hle
    exact hle
  toReal_double {x n} hn hx hvalue := by
    rw [isFinite_iff] at hx
    rw [toReal_eq] at hvalue
    have hvalue : value (unpacked x) = 2 ^ n := by exact_mod_cast hvalue
    have hproduct := rounds_mul hx (y := 2) rfl
    rw [value_two, hvalue, ← pow_succ, ← zpow_natCast] at hproduct
    obtain ⟨hfinite, heq⟩ := hproduct.value_eq_of_isStored (isStored_two_pow (by omega) (by omega))
    refine ⟨isFinite_iff.mpr hfinite, ?_⟩
    rw [toReal_eq, heq]
    norm_cast

end Double

end InfoFlow
