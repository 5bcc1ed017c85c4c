import InfoFlow.Proofs.Random.Closed
import InfoFlow.Proofs.Scalar.Halving
import InfoFlow.Proofs.Scalar.Sums
import InfoFlow.Random.Counts

namespace InfoFlow

open InfoFlow.Random

namespace Random

variable {α : Type} [Scalar α]

/-- Some number of steps is enough for the width of the range from `low` to `high`. -/
def FloatRange.Settles (low high : α) : Prop :=
  ∃ n, ¬ high ≤ fitWidth (fun w => high ≤ w * coarseLimit + low) n (high - low) * coarseLimit + low

theorem FloatRange.exists_halfOpen {low high : α} (hlt : low < high)
    (h : Scalar.isFinite (high - low) = true) : ∃ range, halfOpen low high = .ok range :=
  ⟨_, by simp [halfOpen, hlt, h]; rfl⟩

theorem FloatRange.halfOpen_of_overflow {low high : α} (hlt : low < high)
    (h : Scalar.isFinite (high - low) = false) : halfOpen low high = .error .rangeOverflow := by
  simp [halfOpen, hlt, h]

/-- The chance to fail through a block is not squared any more. -/
def GeometricBlocks.IsSettled (blocks : GeometricBlocks α) : Prop := ¬ 0.5 < blocks.blockFailure

/-- Some number of squares is enough for the failures before a success of probability `p`. -/
def GeometricBlocks.Settles (p : α) : Prop :=
  ∃ n, (geometricBlocks n 1 ((1 - p) * (1 - p))).IsSettled

variable {x : α} {n bits : ℕ}

theorem isSettled_of_not_lt (h : ¬ 0.5 < x) : (geometricBlocks n bits x).IsSettled := by
  cases n with
  | zero => exact h
  | succ n =>
    unfold geometricBlocks
    rwa [if_neg h]

theorem geometricBlocks_of_lt (h : 0.5 < x) :
    geometricBlocks (n + 1) bits x = geometricBlocks n (bits + 1) (x * x) := if_pos h

theorem isSettled_of_square (h : (geometricBlocks n (bits + 1) (x * x)).IsSettled) :
    (geometricBlocks (n + 1) bits x).IsSettled := by
  by_cases hx : 0.5 < x
  · rwa [geometricBlocks_of_lt hx]
  · exact isSettled_of_not_lt hx

/-- More squares than are enough make no difference. -/
theorem GeometricBlocks.IsSettled.mono {k : ℕ} (h : (geometricBlocks n bits x).IsSettled) (hk : n ≤ k) :
    (geometricBlocks k bits x).IsSettled := by
  induction n generalizing bits x k with
  | zero => exact isSettled_of_not_lt h
  | succ n ih =>
    by_cases hx : 0.5 < x
    · rw [geometricBlocks_of_lt hx] at h
      obtain ⟨k, rfl⟩ : ∃ j, k = j + 1 := Nat.exists_eq_succ_of_ne_zero (by omega)
      exact isSettled_of_square (ih h (by omega))
    · exact isSettled_of_not_lt hx

/-- Blocks are found where failures are counted one by one, or all rounds are enough to square their
chance. -/
theorem GeometricBlocks.exists_ofSuccess_iff {p : α} : (∃ blocks, ofSuccess p = .ok blocks) ↔
    Scalar.ofFloat (2 / 3) ≤ p ∨ (geometricBlocks rounds 1 ((1 - p) * (1 - p))).IsSettled := by
  unfold ofSuccess IsSettled
  by_cases hlarge : Scalar.ofFloat (2 / 3) ≤ p
  · simp [hlarge]
  · by_cases hlt : 0.5 < (geometricBlocks rounds 1 ((1 - p) * (1 - p))).blockFailure <;>
      simp [hlarge, hlt]

/-- A chance of failure that does not fall makes the preparation endless. -/
theorem GeometricBlocks.ofSuccess_eq_endless {p : α} (hsmall : ¬ Scalar.ofFloat (2 / 3) ≤ p)
    (h : ¬ Settles p) : ofSuccess p = .error .endless := by
  have hlt : 0.5 < (geometricBlocks rounds 1 ((1 - p) * (1 - p))).blockFailure := by
    by_contra hsettled
    exact h ⟨rounds, hsettled⟩
  simp [ofSuccess, hsmall, hlt]

end Random

namespace Double

open Float.Model Float.Model.UnpackedFloat

section Widths

variable {low high w : Float}

theorem fitWidth_settles {overshoots : Float → Bool}
    (hzero : ∀ w, (unpacked w).isFinite = true → value (unpacked w) = 0 → overshoots w = false)
    (hw : IsAmount w) : ∃ n, overshoots (fitWidth overshoots n w) = false := by
  obtain ⟨i, hi⟩ := (isStored_value w).exists_multiple
  have hleast : unpacked (Float.ofBits 1) = .finite .positive 1 (-1074) (by decide) := rfl
  refine ⟨i.toNat, (fitWidth_spec (k := i.toNat) hleast ?_ hw.isFinite hw.nonneg ?_ le_rfl).2.2.2⟩
  · intro w hfinite hnonneg hlt
    refine hzero w hfinite (hnonneg.antisymm' (not_lt.mp fun hpos => ?_))
    rw [Nat.cast_one, one_mul] at hlt
    exact absurd (two_zpow_le_value hpos) (not_le.mpr hlt)
  · have hle : (i : ℚ) ≤ i.toNat := by exact_mod_cast Int.self_le_toNat i
    calc value (unpacked w) = i * 2 ^ (-1074 : ℤ) := hi
      _ ≤ i.toNat * 2 ^ (-1074 : ℤ) := by gcongr
      _ < (1 : ℕ) * 2 ^ (-1074 : ℤ) + i.toNat * 2 ^ (-1074 : ℤ) := lt_add_of_pos_left _ (by positivity)

/-- Ranges with a width settle: with a width of 0 nothing is drawn but the lower end. -/
theorem settles_of_lt (hlow : (unpacked low).isFinite = true) (hhigh : (unpacked high).isFinite = true)
    (hlt : low < high) (hwidth : Scalar.isFinite (high - low) = true) : FloatRange.Settles low high := by
  rw [lt_iff_value hlow hhigh] at hlt
  have hamount : IsAmount (high - low) := by
    rw [isFinite_iff] at hwidth
    exact (rounds_sub hhigh hlow).isAmount hwidth (by linarith)
  have hzero (w : Float) (hfinite : (unpacked w).isFinite = true) (hvalue : value (unpacked w) = 0) :
      decide (high ≤ w * coarseLimit + low) = false := by
    have hproduct := rounds_mul hfinite (y := coarseLimit) rfl
    rw [hvalue, zero_mul] at hproduct
    obtain ⟨hproductfinite, hproductvalue⟩ := hproduct.value_eq_of_isStored isStored_zero
    have hsum := rounds_add hproductfinite hlow
    rw [hproductvalue, zero_add] at hsum
    obtain ⟨hsumfinite, hsumvalue⟩ := hsum.value_eq_of_isStored (isStored_value low)
    rw [decide_eq_false_iff_not, le_iff_value hhigh hsumfinite, hsumvalue, not_le]
    exact hlt
  obtain ⟨n, hn⟩ := fitWidth_settles hzero hamount
  exact ⟨n, of_decide_eq_false hn⟩

end Widths

section Squares

variable {x p : Float} {b : ℚ} {j n bits : ℕ}

/-- Squares of chances are rounded by at most `2 ^ -54`. -/
theorem square_le (hx : IsAmount x) (hle : value (unpacked x) ≤ b) (hb : b ≤ 1) :
    IsAmount (x * x) ∧ value (unpacked (x * x)) ≤ b ^ 2 + 1 / 2 ^ 54 := by
  have hnonneg := hx.nonneg
  have hsquare : value (unpacked x) * value (unpacked x) ≤ b ^ 2 := by nlinarith
  have hone : value (unpacked x) * value (unpacked x) ≤ 1 := by nlinarith
  have hproduct := rounds_mul hx.isFinite hx.isFinite
  have hamount := (hproduct.isAmount_of_le (mul_self_nonneg _) isStored_one hone).1
  have herror := abs_rounded_sub_le (k := -53) (by norm_num) (by norm_num)
    (by rwa [abs_of_nonneg (mul_self_nonneg _), show (53 : ℤ) + -53 = 0 by norm_num, zpow_zero])
  have habove := (abs_le.mp herror).2
  rw [← hproduct.value_eq hamount.isFinite] at habove
  refine ⟨hamount, ?_⟩
  norm_num at habove ⊢
  linarith

/-- The chance `v` is small after `j` squares: it is a quarter as far from 1, and a rounding error farther, as
some `r` whose `2 ^ j`-th power is at most a half. -/
def Fades (j : ℕ) (v : ℚ) : Prop :=
  ∃ r : ℚ, 0 ≤ r ∧ r ≤ 1 - 1 / 2 ^ 52 ∧ v ≤ (r + 3 - 1 / 2 ^ 52) / 4 ∧ r ^ 2 ^ j ≤ 1 / 2

theorem Fades.square (hx : IsAmount x) (h : Fades (j + 1) (value (unpacked x))) :
    IsAmount (x * x) ∧ Fades j (value (unpacked (x * x))) := by
  obtain ⟨r, hr, hrone, hle, hpower⟩ := h
  obtain ⟨hsquare, hbound⟩ := square_le hx hle (by norm_num at hrone ⊢; linarith)
  have hless : r ^ 2 ≤ r := by nlinarith
  refine ⟨hsquare, r ^ 2, by positivity, hless.trans hrone, hbound.trans ?_, by rwa [← pow_mul, ← pow_succ']⟩
  norm_num at hrone ⊢
  nlinarith

/-- From seven eighths, three squares lead below a half. -/
theorem Fades.isSettled_zero (hx : IsAmount x) (h : Fades 0 (value (unpacked x))) :
    (geometricBlocks (n + 3) bits x).IsSettled := by
  obtain ⟨r, -, -, hle, hpower⟩ := h
  rw [pow_zero, pow_one] at hpower
  obtain ⟨hsecond, hsecondle⟩ := square_le (b := 7 / 8) hx (by norm_num at hle ⊢; linarith) (by norm_num)
  obtain ⟨hthird, hthirdle⟩ := square_le (b := 4 / 5) hsecond (hsecondle.trans (by norm_num)) (by norm_num)
  obtain ⟨hfourth, hfourthle⟩ := square_le (b := 2 / 3) hthird (hthirdle.trans (by norm_num)) (by norm_num)
  refine isSettled_of_square (isSettled_of_square (isSettled_of_square (isSettled_of_not_lt ?_)))
  change ¬ (0.5 : Float) < _
  rw [lt_iff_value rfl hfourth.isFinite, value_half, not_lt]
  exact hfourthle.trans (by norm_num)

theorem Fades.isSettled (hx : IsAmount x) (h : Fades j (value (unpacked x))) :
    (geometricBlocks (n + 3 + j) bits x).IsSettled := by
  induction j generalizing bits x with
  | zero => exact h.isSettled_zero hx
  | succ j ih =>
    obtain ⟨hsquare, hfades⟩ := h.square hx
    exact isSettled_of_square (ih hsquare hfades)

/-- The double below 1. -/
theorem IsStored.le_of_lt_one {q : ℚ} (h : IsStored q) (hlt : q < 1) : q ≤ 1 - 1 / 2 ^ 53 := by
  by_contra hnot
  have hhalf : (2 : ℚ) ^ (-1 : ℤ) ≤ q := by
    norm_num at hnot ⊢
    linarith
  have hfull : IsCanonical (2 ^ 52) (-53) := ⟨by norm_num, by norm_num, .inr le_rfl⟩
  have hunit : ((2 ^ 52 : ℕ) : ℚ) * 2 ^ (-53 : ℤ) = 2 ^ (-1 : ℤ) := by norm_num
  have hnext := h.add_unit_le isStored_one hfull (by norm_num) (hunit ▸ hhalf) hlt
  norm_num at hnext hnot
  linarith

theorem one_sub_inv_pow_le_half {n : ℕ} (hn : 1 ≤ n) : (1 - 1 / n : ℚ) ^ n ≤ 1 / 2 := by
  have hpos : (0 : ℚ) < n := by exact_mod_cast hn
  have hinv : (1 / n : ℚ) ≤ 1 := (div_le_one hpos).mpr (by exact_mod_cast hn)
  have hnonneg : (0 : ℚ) ≤ 1 / n := by positivity
  have hbernoulli := one_add_mul_le_pow (a := (1 / n : ℚ)) (by linarith) n
  rw [mul_one_div_cancel hpos.ne'] at hbernoulli
  have hproduct : ((1 - 1 / n) * (1 + 1 / n) : ℚ) ^ n ≤ 1 := pow_le_one₀ (by nlinarith) (by nlinarith)
  have hpower : (0 : ℚ) ≤ (1 - 1 / n) ^ n := pow_nonneg (by linarith) _
  rw [mul_pow] at hproduct
  nlinarith

theorem fades_of_lt_one {q : ℚ} (h : IsStored q) (hlt : q < 1) : Fades 52 q := by
  have hle : q ≤ (1 - 1 / 2 ^ 52 + 3 - 1 / 2 ^ 52) / 4 := by
    have hbefore := h.le_of_lt_one hlt
    norm_num at hbefore ⊢
    linarith
  have hpower := one_sub_inv_pow_le_half (n := 2 ^ 52) Nat.one_le_two_pow
  rw [Nat.cast_pow, Nat.cast_ofNat] at hpower
  exact ⟨1 - 1 / 2 ^ 52, by norm_num, le_rfl, hle, hpower⟩

theorem square_of_one (hfinite : (unpacked x).isFinite = true) (hone : value (unpacked x) = 1) :
    (unpacked (x * x)).isFinite = true ∧ value (unpacked (x * x)) = 1 := by
  have hsquare := rounds_mul hfinite hfinite
  rw [hone, one_mul] at hsquare
  exact hsquare.value_eq_of_isStored isStored_one

/-- A chance of 1 stays one however often it is squared. -/
theorem not_isSettled_of_one (hfinite : (unpacked x).isFinite = true) (hone : value (unpacked x) = 1) :
    ¬ (geometricBlocks n bits x).IsSettled := by
  have hhalf {y : Float} (hfinite : (unpacked y).isFinite = true) (hone : value (unpacked y) = 1) :
      (0.5 : Float) < y := by
    rw [lt_iff_value rfl hfinite, value_half, hone]
    norm_num
  induction n generalizing bits x with
  | zero => exact not_not.mpr (hhalf hfinite hone)
  | succ n ih =>
    obtain ⟨hsquare, hsquareone⟩ := square_of_one hfinite hone
    rw [geometricBlocks_of_lt (hhalf hfinite hone)]
    exact ih hsquare hsquareone

/-- 64 squares are enough. -/
theorem isSettled_of_lt_one (hfailure : IsAmount (1 - p)) (hlt : value (unpacked (1 - p)) < 1)
    (hn : 64 ≤ n) : (geometricBlocks n 1 ((1 - p) * (1 - p))).IsSettled := by
  obtain ⟨hsquare, hfades⟩ := Fades.square (j := 51) hfailure (fades_of_lt_one (isStored_value _) hlt)
  have hsettled : (geometricBlocks (10 + 3 + 51) 1 ((1 - p) * (1 - p))).IsSettled :=
    hfades.isSettled hsquare
  exact hsettled.mono hn

/-- Chances of failure settle within 64 squares if the probability counts in `1 - p`, and never if it does
not. -/
theorem settled_cases (hfinite : (unpacked p).isFinite = true) (hpos : 0 < value (unpacked p))
    (hle : value (unpacked p) ≤ 1) :
    (1 - p == 1) = false ∧ (∀ n, 64 ≤ n → (geometricBlocks n 1 ((1 - p) * (1 - p))).IsSettled) ∨
      (1 - p == 1) = true ∧ ∀ n, ¬ (geometricBlocks n 1 ((1 - p) * (1 - p))).IsSettled := by
  have hrounds := rounds_sub (x := 1) rfl hfinite
  rw [value_one] at hrounds
  obtain ⟨hfailure, hone⟩ := hrounds.isAmount_of_le (by linarith) isStored_one (by linarith)
  rw [← Bool.not_eq_true, beq_iff_value hfailure.isFinite rfl, value_one]
  rcases hone.lt_or_eq with hlt | hcertain
  · exact .inl ⟨hlt.ne, fun n hn => isSettled_of_lt_one hfailure hlt hn⟩
  · obtain ⟨hsquare, hsquareone⟩ := square_of_one hfailure.isFinite hcertain
    exact .inr ⟨hcertain, fun n => not_isSettled_of_one hsquare hsquareone⟩

theorem one_sub_beq_one_of_half_le (hfinite : (unpacked p).isFinite = true) (hhalf : 1 / 2 ≤ value (unpacked p))
    (hle : value (unpacked p) ≤ 1) : (1 - p == 1) = false := by
  have hrounds := rounds_sub (x := 1) rfl hfinite
  rw [value_one] at hrounds
  have hstored : IsStored (1 / 2) := value_half ▸ isStored_value 0.5
  obtain ⟨hfailure, hfailurele⟩ := hrounds.isAmount_of_le (by linarith) hstored (by linarith)
  rw [← Bool.not_eq_true, beq_iff_value hfailure.isFinite rfl, value_one]
  exact (hfailurele.trans_lt (by norm_num)).ne

end Squares

end Double

end InfoFlow
