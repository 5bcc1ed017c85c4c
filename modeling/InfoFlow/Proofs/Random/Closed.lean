import InfoFlow.Proofs.Random.Uniform
import InfoFlow.Proofs.Scalar.Bounds
import InfoFlow.Proofs.Scalar.DoubleSteps

namespace InfoFlow

open InfoFlow.Random

/-- Arithmetic in which bounded ranges are not too wide, and in which what is drawn from a closed range lies
between its ends. -/
class LawfulUniform (α : Type) [Scalar α] : Prop where
  ofNat_mono {m n : ℕ} : m ≤ n → (Scalar.ofNat m : α) ≤ Scalar.ofNat n
  width_le {x y : α} : Scalar.IsBounded x → Scalar.IsBounded y → y - x ≤ Scalar.ofNat (2 ^ 54)
  point_mem {low high : α} {k : ℕ} : Scalar.IsBounded low → low < high → high ≤ Scalar.ofNat (2 ^ 54) →
    k < 2 ^ 52 → low ≤ (FloatRange.closed low high).point k ∧ (FloatRange.closed low high).point k ≤ high

theorem Random.closed_draw_between {α σ : Type} [Scalar α] [LawfulUniform α] [RandomWords σ] {low high : α}
    (hbounded : Scalar.IsBounded low) (hlt : low < high) (hhigh : high ≤ Scalar.ofNat (2 ^ 54)) :
    ((FloatRange.closed low high).draw : Random σ α).Always fun x => low ≤ x ∧ x ≤ high := by
  refine (FloatRange.draw_point _).mono ?_
  rintro _ ⟨k, hk, rfl⟩
  exact LawfulUniform.point_mem hbounded hlt hhigh hk

instance : LawfulUniform Exact where
  ofNat_mono h := by
    rw [Exact.ofNat_eq, Exact.ofNat_eq, Exact.real_le]
    exact_mod_cast h
  width_le {x y} hx hy := by
    obtain ⟨x, rfl, hxl, hxh⟩ := Exact.real_of_isBounded hx
    obtain ⟨y, rfl, hyl, hyh⟩ := Exact.real_of_isBounded hy
    rw [Exact.real_sub, Exact.ofNat_eq, Exact.real_le]
    push_cast
    linarith
  point_mem {low high k} hlow hlt hhigh hk := by
    obtain ⟨low, rfl, -⟩ := Exact.real_of_isBounded hlow
    obtain ⟨high, rfl⟩ : ∃ y, high = .real y := by
      cases high with
      | real y => exact ⟨y, rfl⟩
      | infinity => exact absurd hhigh (Exact.not_infinity_le_real _)
      | nan | negInfinity => cases hlt
    obtain ⟨y, hy, hge, hle⟩ := closed_point_real (Exact.real_lt.mp hlt) hk
    rw [hy, Exact.real_le, Exact.real_le]
    exact ⟨hge, hle⟩

namespace Double

open Float.Model Float.Model.UnpackedFloat

section Widths

variable {m k n : ℕ} {e : ℤ} {hm : 0 < m} {d w low high : Float}

/-- If the range does not overshoot with any width below `d`, then it does not with the width that is found
from a few doubles above. -/
theorem fitWidth_spec {overshoots : Float → Bool} (hd : unpacked d = .finite .positive m e hm)
    (hbelow : ∀ w, (unpacked w).isFinite = true → 0 ≤ value (unpacked w) →
      value (unpacked w) < m * 2 ^ e → overshoots w = false)
    (hw : (unpacked w).isFinite = true) (hnonneg : 0 ≤ value (unpacked w))
    (hlt : value (unpacked w) < m * 2 ^ e + k * 2 ^ e) (hk : k ≤ n) :
    (unpacked (fitWidth overshoots n w)).isFinite = true ∧ 0 ≤ value (unpacked (fitWidth overshoots n w)) ∧
      value (unpacked (fitWidth overshoots n w)) ≤ value (unpacked w) ∧
      overshoots (fitWidth overshoots n w) = false := by
  have hunit : (0 : ℚ) < 2 ^ e := by positivity
  induction n generalizing k w with
  | zero =>
    obtain rfl : k = 0 := by omega
    exact ⟨hw, hnonneg, le_rfl, hbelow w hw hnonneg (by simpa using hlt)⟩
  | succ n ih =>
    unfold fitWidth
    cases hover : overshoots w with
    | false => exact ⟨hw, hnonneg, le_rfl, hover⟩
    | true =>
      have hwide : m * 2 ^ e ≤ value (unpacked w) := by
        by_contra hnarrow
        rw [hbelow w hw hnonneg (not_le.mp hnarrow)] at hover
        cases hover
      have hpos : (0 : ℚ) < m * 2 ^ e := by positivity
      obtain ⟨hfinite, hprevious, hless⟩ := value_predecessor hw (hpos.trans_le hwide)
      obtain ⟨j, rfl⟩ : ∃ j, k = j + 1 := by
        refine Nat.exists_eq_succ_of_ne_zero ?_
        rintro rfl
        simp only [Nat.cast_zero, zero_mul, add_zero] at hlt
        linarith
      rw [Nat.cast_succ, add_one_mul] at hlt
      have hstep : value (unpacked (Scalar.predecessor w)) < m * 2 ^ e + j * 2 ^ e := by
        rcases lt_or_ge (value (unpacked (Scalar.predecessor w))) (m * 2 ^ e) with hnarrow | hstill
        · exact hnarrow.trans_le (le_add_of_nonneg_right (by positivity))
        · have hgap := (isStored_value _).add_unit_le (isStored_value _) (isCanonical_of_unpacked hd) hm
            hstill hless
          linarith
      obtain ⟨hfit, hfitge, hfitle, hfits⟩ := ih hfinite hprevious hstep (by omega)
      exact ⟨hfit, hfitge, hfitle.trans hless.le, hfits⟩

theorem unpacked_coarseLimit :
    unpacked (coarseLimit : Float) = .finite .positive (2 ^ 53 - 2) (-53) (by decide) := rfl

theorem value_coarseLimit : value (unpacked (coarseLimit : Float)) = (2 ^ 52 - 1) / 2 ^ 52 := by
  rw [unpacked_coarseLimit]
  norm_num [value]

/-- What is drawn with the largest unit does not pass the upper end if the width does not pass that of the
range. -/
theorem le_of_lt_width (hlow : (unpacked low).isFinite = true) (hhigh : (unpacked high).isFinite = true)
    (hd : unpacked (high - low) = .finite .positive m e hm) (hw : (unpacked w).isFinite = true)
    (hnonneg : 0 ≤ value (unpacked w)) (hlt : value (unpacked w) < m * 2 ^ e) :
    w * coarseLimit + low ≤ high := by
  have hwidth := rounds_sub hhigh hlow
  -- a double below a rounded difference is not above the difference itself
  have hle : value (unpacked w) ≤ value (unpacked high) - value (unpacked low) := by
    by_contra hgt
    have hmono := rounded_mono (not_le.mp hgt).le
    rw [rounded_of_isStored (isStored_value w), ← hwidth.value_eq (by rw [hd]; rfl), hd] at hmono
    exact absurd hlt (not_lt.mpr hmono)
  have hproduct := rounds_mul hw (y := coarseLimit) rfl
  have hshare : value (unpacked w) * value (unpacked (coarseLimit : Float)) ≤ value (unpacked w) := by
    rw [value_coarseLimit]
    exact mul_le_of_le_one_right hnonneg (by norm_num)
  obtain ⟨hfinite, habs⟩ := hproduct.abs_value_le (isStored_value w) (by
    rw [value_coarseLimit] at hshare ⊢
    rwa [abs_of_nonneg (mul_nonneg hnonneg (by norm_num))])
  refine (rounds_add hfinite hlow).le (rounds_self hhigh) ?_
  linarith [(abs_le.mp habs).2]

/-- The width that a range starts with is at most a few doubles too large. -/
theorem value_div_coarseLimit (hd : unpacked d = .finite .positive m e hm) (he : e < 971) :
    (unpacked (d / coarseLimit)).isFinite = true ∧ 0 ≤ value (unpacked (d / coarseLimit)) ∧
      value (unpacked (d / coarseLimit)) < m * 2 ^ e + 6 * 2 ^ e := by
  obtain ⟨hbits, hleast, -⟩ := isCanonical_of_unpacked hd
  have hunit : (0 : ℚ) < 2 ^ e := by positivity
  have hvalue : value (unpacked d) = m * 2 ^ e := by rw [hd]; rfl
  have hquotient := rounds_div (x := d) (y := coarseLimit) (by rw [hd]; rfl) rfl
    (by rw [value_coarseLimit]; norm_num)
  rw [hvalue, value_coarseLimit] at hquotient
  -- the quotient is at most four units above, and a number of five units at most is a double
  have hstored : IsStored (((m + 5) / 2 : ℕ) * 2 ^ (e + 1)) := isStored_mul_zpow (by omega) (by omega) (by omega)
  have hexceeds : (m * 2 ^ e : ℚ) / ((2 ^ 52 - 1) / 2 ^ 52) ≤ m * 2 ^ e + 4 * 2 ^ e := by
    have hmantissa : (m : ℚ) ≤ 2 ^ 53 - 1 := by
      rw [le_sub_iff_add_le]
      exact_mod_cast hbits
    rw [div_le_iff₀ (by norm_num)]
    nlinarith
  have hbound : (m * 2 ^ e + 4 * 2 ^ e : ℚ) ≤ ((m + 5) / 2 : ℕ) * 2 ^ (e + 1) := by
    have hhalf : (m + 4 : ℚ) ≤ ((m + 5) / 2 : ℕ) * 2 := by exact_mod_cast (by omega : m + 4 ≤ (m + 5) / 2 * 2)
    rw [zpow_add_one₀ two_ne_zero]
    nlinarith
  have hnear : (((m + 5) / 2 : ℕ) * 2 ^ (e + 1) : ℚ) < m * 2 ^ e + 6 * 2 ^ e := by
    have hhalf : (((m + 5) / 2 : ℕ) * 2 : ℚ) < m + 6 := by exact_mod_cast (by omega : (m + 5) / 2 * 2 < m + 6)
    rw [zpow_add_one₀ two_ne_zero]
    nlinarith
  have hnonneg : (0 : ℚ) ≤ m * 2 ^ e / ((2 ^ 52 - 1) / 2 ^ 52) := div_nonneg (by positivity) (by norm_num)
  obtain ⟨hfinite, habs⟩ := hquotient.abs_value_le hstored
    (by rw [abs_of_nonneg hnonneg]; exact hexceeds.trans hbound)
  refine ⟨hfinite, ?_, ((le_abs_self _).trans habs).trans_lt hnear⟩
  rw [hquotient.value_eq hfinite, rounded_of_nonneg hnonneg]
  exact magnitude_nonneg _

end Widths

section Draws

variable {low high w : Float} {k : ℕ}

theorem value_coarseUnit (hk : k < 2 ^ 52) :
    (unpacked (Scalar.ofNat k / Scalar.ofNat 4503599627370496)).isFinite = true ∧
      value (unpacked (Scalar.ofNat k / Scalar.ofNat 4503599627370496)) = k * 2 ^ (-52 : ℤ) := by
  obtain ⟨hfinite, hvalue⟩ := value_ofNat (isExact_of_lt (n := k) (by omega))
  obtain ⟨hfinite', hvalue'⟩ := value_ofNat (isExact_of_lt (n := 4503599627370496) (by norm_num))
  have hquotient := rounds_div hfinite hfinite' (by rw [hvalue']; norm_num)
  have hshare : (k : ℚ) / (4503599627370496 : ℕ) = k * 2 ^ (-52 : ℤ) := by
    rw [div_eq_mul_inv]
    norm_num
  rw [hvalue, hvalue', hshare] at hquotient
  exact hquotient.value_eq_of_isStored (isStored_mul_zpow (by omega) (by norm_num) (by norm_num))

/-- What is drawn from a range that does not overshoot is no less than its lower end, and no more than what
the largest unit gives. -/
theorem point_mem (hlow : (unpacked low).isFinite = true) (hw : (unpacked w).isFinite = true)
    (hnonneg : 0 ≤ value (unpacked w)) (hfits : w * coarseLimit + low ≤ high) (hk : k < 2 ^ 52) :
    low ≤ FloatRange.point ⟨low, w⟩ k ∧ FloatRange.point ⟨low, w⟩ k ≤ high := by
  obtain ⟨hunit, hvalue⟩ := value_coarseUnit hk
  have hproduct := rounds_mul hunit hw
  have hlargest := rounds_mul hw (y := coarseLimit) rfl
  rw [hvalue] at hproduct
  rw [value_coarseLimit] at hlargest
  have hshare : (k * 2 ^ (-52 : ℤ) : ℚ) ≤ (2 ^ 52 - 1) / 2 ^ 52 := by
    have hle : (k + 1 : ℚ) ≤ 2 ^ 52 := by exact_mod_cast hk
    rw [le_div_iff₀ (by norm_num)]
    norm_num at hle ⊢
    linarith
  have hge : 0 ≤ (k * 2 ^ (-52 : ℤ) : ℚ) * value (unpacked w) := by positivity
  have hle : (k * 2 ^ (-52 : ℤ) : ℚ) * value (unpacked w) ≤
      value (unpacked w) * ((2 ^ 52 - 1) / 2 ^ 52) := by
    rw [mul_comm]
    exact mul_le_mul_of_nonneg_left hshare hnonneg
  have hone : ((2 ^ 52 - 1) / 2 ^ 52 : ℚ) ≤ 1 := by norm_num
  have hbound := mul_le_of_le_one_right hnonneg hone
  obtain ⟨hfinite, -⟩ := hproduct.abs_value_le (isStored_value w)
    (by rw [abs_of_nonneg hge]; exact hle.trans hbound)
  obtain ⟨hfinite', -⟩ := hlargest.abs_value_le (isStored_value w)
    (by rw [abs_of_nonneg (hge.trans hle)]; exact hbound)
  have hsum := rounds_add hfinite hlow
  have hsum' := rounds_add hfinite' hlow
  rw [hproduct.value_eq hfinite] at hsum
  rw [hlargest.value_eq hfinite'] at hsum'
  have hzero : 0 ≤ rounded (k * 2 ^ (-52 : ℤ) * value (unpacked w)) := by
    rw [rounded_of_nonneg hge]
    exact magnitude_nonneg _
  refine ⟨(rounds_self hlow).le hsum (le_add_of_nonneg_left hzero), LawfulOrder.le_trans ?_ hfits⟩
  exact hsum.le hsum' (by linarith [rounded_mono hle])

/-- Ends that increase are a positive distance apart. -/
theorem unpacked_sub_pos (hlow : (unpacked low).isFinite = true) (hhigh : (unpacked high).isFinite = true)
    (hlt : value (unpacked low) < value (unpacked high))
    (hfinite : (unpacked (high - low)).isFinite = true) :
    ∃ m e hm, unpacked (high - low) = .finite .positive m e hm := by
  have hleast : (2 : ℚ) ^ (-1074 : ℤ) ≤ value (unpacked high) - value (unpacked low) := by
    obtain ⟨i, hi⟩ := (isStored_value low).exists_multiple
    obtain ⟨j, hj⟩ := (isStored_value high).exists_multiple
    rw [hi, hj] at hlt ⊢
    generalize hunit : (2 : ℚ) ^ (-1074 : ℤ) = unit at hlt ⊢
    have hpos : 0 < unit := hunit ▸ by positivity
    have hnext : ((i + 1 : ℤ) : ℚ) ≤ j := by exact_mod_cast lt_of_mul_lt_mul_right hlt hpos.le
    push_cast at hnext
    nlinarith
  have hpos : 0 < value (unpacked (high - low)) := by
    have hstored : IsStored (2 ^ (-1074 : ℤ)) := by
      simpa using isStored_mul_zpow (m := 1) (e := -1074) (by norm_num) le_rfl (by norm_num)
    have hmono := rounded_mono hleast
    rw [rounded_of_isStored hstored, ← (rounds_sub hhigh hlow).value_eq hfinite] at hmono
    exact lt_of_lt_of_le (by positivity) hmono
  rcases hu : unpacked (high - low) with s | _ | s | ⟨_ | _, m, e, hm⟩
  case finite.positive => exact ⟨m, e, hm, rfl⟩
  case finite.negative =>
    rw [hu] at hpos
    exact absurd hpos (not_lt.mpr (neg_nonpos.mpr (by positivity)))
  all_goals
    rw [hu] at hpos
    exact absurd hpos (lt_irrefl _)

instance : LawfulUniform Float where
  ofNat_mono h := (rounds_ofNat _).le (rounds_ofNat _) (by exact_mod_cast h)
  width_le {x y} hx hy := by
    obtain ⟨hx, hxl, hxh⟩ := value_of_isBounded hx
    obtain ⟨hy, hyl, hyh⟩ := value_of_isBounded hy
    refine (rounds_sub hy hx).le (rounds_ofNat _) ?_
    push_cast
    linarith
  point_mem {low high k} hlow hlt hhigh hk := by
    have hlimit : (unpacked (Scalar.ofNat (2 ^ 54))).isFinite = true := isFinite_ofNat (by norm_num)
    have hfinite := isFinite_iff.mp (Scalar.isFinite_of_between (Scalar.le_of_lt hlt) hhigh hlow.isFinite
      (isFinite_iff.mpr hlimit))
    obtain ⟨hlow, hlowl, -⟩ := value_of_isBounded hlow
    rw [le_iff_value hfinite hlimit, (rounds_ofNat _).value_eq hlimit, Nat.cast_pow, Nat.cast_ofNat,
      ← zpow_natCast, rounded_of_isStored (isStored_two_pow (by norm_num) (by norm_num))] at hhigh
    rw [lt_iff_value hlow hfinite] at hlt
    obtain ⟨hwidth, hwidthle⟩ := (rounds_sub hfinite hlow).abs_value_le (r := 2 ^ (55 : ℤ))
      (isStored_two_pow (by norm_num) (by norm_num)) (by
        rw [abs_of_pos (sub_pos.mpr hlt)]
        norm_num at hhigh ⊢
        linarith)
    obtain ⟨m, e, hm, hd⟩ := unpacked_sub_pos hlow hfinite hlt hwidth
    have he : e < 971 := by
      have hone : (1 : ℚ) ≤ m := by exact_mod_cast hm
      have hpower : (2 : ℚ) ^ e ≤ 2 ^ (55 : ℤ) := by
        rw [hd] at hwidthle
        exact (le_mul_of_one_le_left (by positivity) hone).trans ((le_abs_self _).trans hwidthle)
      exact lt_of_le_of_lt ((zpow_le_zpow_iff_right₀ (by norm_num)).mp hpower) (by norm_num)
    obtain ⟨hstart, hstartge, hstartlt⟩ := value_div_coarseLimit hd he
    have hbelow (w : Float) (hw : (unpacked w).isFinite = true) (hnonneg : 0 ≤ value (unpacked w))
        (hlt : value (unpacked w) < m * 2 ^ e) : decide (high < w * coarseLimit + low) = false :=
      decide_eq_false fun hgt =>
        Scalar.not_le_of_lt hgt (le_of_lt_width hlow hfinite hd hw hnonneg hlt)
    obtain ⟨hfit, hfitge, -, hfits⟩ := fitWidth_spec (k := 6) (n := widthSteps) hd hbelow hstart hstartge
      (by exact_mod_cast hstartlt) (by decide)
    have hproduct := rounds_mul hfit (y := coarseLimit) rfl
    rw [value_coarseLimit] at hproduct
    obtain ⟨hlargest, -⟩ := hproduct.abs_value_le (isStored_value _) (by
      rw [abs_of_nonneg (mul_nonneg hfitge (by norm_num))]
      exact mul_le_of_le_one_right hfitge (by norm_num))
    refine point_mem hlow hfit hfitge ?_ hk
    exact Scalar.le_of_not_lt (isNaN_of_isFinite hfinite) (rounds_add hlargest hlow).isNaN
      (of_decide_eq_false hfits)

end Draws

end Double

end InfoFlow
