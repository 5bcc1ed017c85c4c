import InfoFlow.Proofs.Scalar.DoubleFloor
import InfoFlow.Proofs.Scalar.Words

open Float.Model Float.Model.UnpackedFloat

namespace InfoFlow.Double

section Naturals

/-- Some double is the natural number. -/
def IsExact (n : ℕ) : Prop := n = 0 ∨ ∃ m e, IsFull m e ∧ (n : ℚ) = m * 2 ^ e

variable {n : ℕ} {x : Float}

/-- The words below `2 ^ 53` are converted as they are. -/
theorem unpacked_toFloat (hpos : 0 < n) (hlt : n < 2 ^ 53) : ∃ m e, ∃ h : IsFull m e,
    (n : ℚ) = m * 2 ^ e ∧ unpacked n.toUInt64.toFloat = .finite .positive m e h.pos := by
  obtain ⟨hge, hup⟩ := (Nat.log2_eq_iff hpos.ne').mp rfl
  have hlog : n.log2 ≤ 52 := Nat.lt_succ_iff.mp ((Nat.log2_lt hpos.ne').mpr hlt)
  obtain ⟨j, hj⟩ := Nat.exists_eq_add_of_le hlog
  have hlow := Nat.mul_le_mul_right (2 ^ j) hge
  have hhigh := Nat.mul_lt_mul_of_pos_right hup (Nat.two_pow_pos j)
  rw [← pow_add, ← hj] at hlow
  rw [← pow_add, show n.log2 + 1 + j = 53 by omega] at hhigh
  have hfull : IsFull (n * 2 ^ j) (-j) := ⟨hlow, hhigh, by omega, by omega⟩
  have hword : n.toUInt64.toNat = n := by
    change (UInt64.ofNat n).toNat = n
    exact UInt64.toNat_ofNat_of_lt' (hlt.trans (by decide))
  have hvalue : (n : ℚ) = (n * 2 ^ j : ℕ) * 2 ^ (-j : ℤ) := by
    rw [Nat.cast_mul, Nat.cast_pow, Nat.cast_ofNat, zpow_neg, zpow_natCast,
      mul_inv_cancel_right₀ (by positivity)]
  refine ⟨n * 2 ^ j, -j, hfull, hvalue, ?_⟩
  change repack (UnpackedFloat.normalize Format.binary64 (n.toUInt64.toNat : ℤ) 0 .positive) = _
  have hcompare : compare (n : ℤ) 0 = .gt := Int.compare_eq_gt.mpr (by omega)
  have hround := round_eq (f := 0) hfull.isCanonical hfull.pos hpos (by simp) .positive
  unfold UnpackedFloat.normalize
  simp only [hword, hcompare, Int.toNat_natCast, hround]
  exact repack_full hfull

/-- Natural numbers that are doubles are converted as they are. -/
theorem unpacked_ofNat (h : IsExact n) (hpos : 0 < n) : ∃ m e, ∃ h : IsFull m e,
    (n : ℚ) = m * 2 ^ e ∧ unpacked (Scalar.ofNat n) = .finite .positive m e h.pos := by
  by_cases hlt : n < 2 ^ 53
  · obtain ⟨m, e, hfull, hvalue, hunpacked⟩ := unpacked_toFloat hpos hlt
    refine ⟨m, e, hfull, hvalue, ?_⟩
    have hone : unpacked (Float.ofBits 0x3FF0000000000000) =
      .finite .positive (2 ^ 52) (-52) (by decide) := rfl
    have hproduct : Scalar.ofNat n = n.toUInt64.toFloat * Float.ofBits 0x3FF0000000000000 :=
      dif_pos ⟨hlt, Nat.zero_le _⟩
    rw [hproduct, unpacked_mul, hunpacked, hone]
    exact (congrArg repack (roundWithAccuracy_mul hfull.isCanonical hfull.pos 52)).trans
      (repack_full hfull)
  · obtain rfl | ⟨m, e, hfull, hvalue⟩ := h
    · omega
    have he : 0 ≤ e := by
      by_contra hneg
      have hpower : (2 : ℚ) ^ e ≤ 1 := zpow_le_one_of_nonpos₀ (by norm_num) (by omega)
      have hle : (n : ℚ) ≤ m := hvalue ▸ mul_le_of_le_one_right (Nat.cast_nonneg m) hpower
      have hle : n ≤ m := by exact_mod_cast hle
      have := hfull.mantissa_lt
      omega
    obtain ⟨k, rfl⟩ := Int.eq_ofNat_of_zero_le he
    obtain rfl : n = m * 2 ^ k := by exact_mod_cast hvalue
    refine ⟨m, k, hfull, hvalue, ?_⟩
    have hslow : (Scalar.ofNat (m * 2 ^ k) : Float) =
        Float.ofModel (Float.Model.ofScientific (m * 2 ^ k) 0) := dif_neg fun h => hlt h.1
    have hproduct : UnpackedFloat.ofScientific Format.binary64 (m * 2 ^ k) 0 =
        .finite .positive m k hfull.pos := by
      have hkept := roundWithAccuracy_mul (s := .positive) hfull.isCanonical hfull.pos (k + 53)
      rw [pow_add, ← Nat.mul_assoc, ← Nat.shiftLeft_eq _ 53] at hkept
      have hsmall : ¬ (0 : ℤ) < -((2 ^ Format.binary64.exponentBits : ℤ) + (m * 2 ^ k).log2) := by
        change ¬ (0 : ℤ) < -(2048 + ((m * 2 ^ k).log2 : ℤ))
        omega
      unfold UnpackedFloat.ofScientific
      rw [dif_neg hpos.ne', if_neg (by decide), if_neg hsmall, if_pos le_rfl, ← hkept,
        show (k : ℤ) - (k + 53 : ℕ) = -53 by omega, ← Nat.mul_one ((m * 2 ^ k) <<< 53)]
      rfl
    rw [hslow]
    change repack (UnpackedFloat.ofScientific Format.binary64 (m * 2 ^ k) 0) = _
    rw [hproduct, repack_full hfull]

theorem isExact_of_lt (hlt : n < 2 ^ 53) : IsExact n := by
  obtain rfl | hpos := n.eq_zero_or_pos
  · exact .inl rfl
  · obtain ⟨m, e, hfull, hvalue, _⟩ := unpacked_toFloat hpos hlt
    exact .inr ⟨m, e, hfull, hvalue⟩

theorem value_ofNat (h : IsExact n) : (unpacked (Scalar.ofNat n)).isFinite = true ∧
    value (unpacked (Scalar.ofNat n)) = n := by
  obtain rfl | hpos := n.eq_zero_or_pos
  · exact ⟨rfl, Nat.cast_zero.symm⟩
  · obtain ⟨m, e, hfull, hvalue, hunpacked⟩ := unpacked_ofNat h hpos
    rw [hunpacked, hvalue]
    exact ⟨rfl, rfl⟩

/-- The word that a double is truncated to is a double, unless it is the largest one. -/
theorem isExact_toUInt64 (x : Float) :
    IsExact x.toUInt64.toNat ∨ x.toUInt64.toNat = 2 ^ 64 - 1 := by
  have hword : x.toUInt64 = UnpackedFloat.toUInt64 (unpacked x) := rfl
  rcases hx : unpacked x with (_ | _) | _ | _ | ⟨s, m, e, hm⟩
  case infinity.negative | notANumber | zero =>
    rw [hword, hx]
    exact .inl (.inl rfl)
  case infinity.positive =>
    rw [hword, hx]
    exact .inr rfl
  case finite =>
    by_cases hlt : x.toUInt64.toNat < 2 ^ 53
    · exact .inl (isExact_of_lt hlt)
    by_cases hlargest : x.toUInt64.toNat = 2 ^ 64 - 1
    · exact .inr hlargest
    have hfloor := toNat_toUInt64 (x := x) (by rw [hx]; rfl)
    rw [hx] at hfloor
    cases s with
    | negative =>
      have hneg : -(m * 2 ^ e : ℚ) ≤ 0 := neg_nonpos.mpr (by positivity)
      rw [value, Nat.floor_of_nonpos hneg] at hfloor
      omega
    | positive =>
      -- the double is that large only if its exponent is positive, so that it is whole
      rw [value] at hfloor
      have hlarge : 2 ^ 53 ≤ ⌊(m * 2 ^ e : ℚ)⌋₊ := by omega
      have hcanonical := isCanonical_of_unpacked hx
      have he : 0 < e := by
        by_contra hneg
        have hpower : (2 : ℚ) ^ e ≤ 1 := zpow_le_one_of_nonpos₀ (by norm_num) (by omega)
        have hle := Nat.floor_mono (mul_le_of_le_one_right (Nat.cast_nonneg m) hpower)
        rw [Nat.floor_natCast] at hle
        have := hcanonical.mantissa_lt
        omega
      obtain ⟨k, rfl⟩ := Int.eq_ofNat_of_zero_le he.le
      have hfull := isFull_of_unpacked hx (hcanonical.normal_or_least.resolve_left (by omega))
      have hwhole : ⌊(m * 2 ^ (k : ℤ) : ℚ)⌋₊ = m * 2 ^ k := by
        rw [zpow_natCast]
        exact_mod_cast Nat.floor_natCast (m * 2 ^ k)
      refine .inl (.inr ⟨m, k, hfull, ?_⟩)
      rw [hfloor, hwhole, min_eq_left (by omega), zpow_natCast]
      exact_mod_cast rfl

end Naturals

section Integers

variable {x y z : Float}

theorem value_ofInt {i : ℤ} (h : IsExact i.natAbs) : (unpacked (Scalar.ofInt i)).isFinite = true ∧
    value (unpacked (Scalar.ofInt i)) = i := by
  obtain ⟨hfinite, hvalue⟩ := value_ofNat h
  unfold Scalar.ofInt
  by_cases hneg : i < 0
  · rw [if_pos hneg]
    refine ⟨isFinite_neg hfinite, ?_⟩
    rw [unpacked_neg, value_neg, hvalue, Nat.cast_natAbs, abs_of_neg hneg]
    push_cast
    exact neg_neg _
  · rw [if_neg hneg, hvalue, Nat.cast_natAbs, abs_of_nonneg (not_lt.mp hneg)]
    exact ⟨hfinite, rfl⟩

/-- The word that a double is truncated to is a double, or the largest one, which is rounded up. -/
theorem value_ofUInt64_toUInt64 (x : Float) :
    (unpacked (Scalar.ofUInt64 (Scalar.toUInt64 x) : Float)).isFinite = true ∧
      (value (unpacked (Scalar.ofUInt64 (Scalar.toUInt64 x) : Float)) = x.toUInt64.toNat ∨
        x.toUInt64.toNat = 2 ^ 64 - 1 ∧
          value (unpacked (Scalar.ofUInt64 (Scalar.toUInt64 x) : Float)) = (2 ^ 64 : ℕ)) := by
  change (unpacked (Scalar.ofNat x.toUInt64.toNat)).isFinite = true ∧
    (value (unpacked (Scalar.ofNat x.toUInt64.toNat)) = _ ∨ _ ∧
      value (unpacked (Scalar.ofNat x.toUInt64.toNat)) = _)
  rcases isExact_toUInt64 x with h | h
  · exact ⟨(value_ofNat h).1, .inl (value_ofNat h).2⟩
  · have hrounded : unpacked (Scalar.ofNat (2 ^ 64 - 1)) =
        .finite .positive (2 ^ 52) 12 (by decide) := rfl
    rw [h, hrounded]
    refine ⟨rfl, .inr ⟨rfl, ?_⟩⟩
    norm_num [value]

theorem toInt_ofIntClamp (i : ℤ) :
    (Int64.ofIntClamp i).toInt = max (-2 ^ 63) (min (2 ^ 63 - 1) i) := by
  unfold Int64.ofIntClamp
  split
  · split
    · rename_i hlow hhigh
      rw [Int64.toInt_ofIntLE]
      rw [Int64.toInt_minValue] at hlow
      rw [Int64.toInt_maxValue] at hhigh
      omega
    · rename_i hhigh
      rw [Int64.toInt_maxValue] at hhigh ⊢
      omega
  · rename_i hlow
    rw [Int64.toInt_minValue] at hlow ⊢
    omega

theorem truncate_mono {p q : ℚ} (h : p ≤ q) : truncate p ≤ truncate q := by
  unfold truncate
  by_cases hp : p < 0
  · by_cases hq : q < 0
    · rw [if_pos hp, if_pos hq]
      have := Nat.floor_mono (neg_le_neg h)
      omega
    · rw [if_pos hp, if_neg hq]
      omega
  · have hq : ¬ q < 0 := fun hq => hp (h.trans_lt hq)
    rw [if_neg hp, if_neg hq]
    have := Nat.floor_mono h
    omega

/-- The signed word that a finite double is truncated to. -/
theorem toInt_toInt64 (hx : (unpacked x).isFinite = true) : (Scalar.toInt64 x).toInt =
    max (-2 ^ 63) (min (2 ^ 63 - 1) (truncate (value (unpacked x)))) := by
  change (Scalar.toInt64OfFloat x).toInt = _
  have hneg : x < 0 ↔ value (unpacked x) < 0 := lt_iff_value hx rfl
  unfold Scalar.toInt64OfFloat truncate
  by_cases h : x < 0
  · rw [if_pos h, if_pos (hneg.mp h), toInt_ofIntClamp, toNat_toUInt64 (isFinite_neg hx), unpacked_neg,
      value_neg]
    omega
  · rw [if_neg h, if_neg (mt hneg.mpr h), toInt_ofIntClamp, toNat_toUInt64 hx]
    omega

/-- It is a double, up to its sign, unless it is the largest one. -/
theorem isExact_toInt64 (x : Float) : IsExact (Scalar.toInt64 x).toInt.natAbs ∨
    (Scalar.toInt64 x).toInt = 2 ^ 63 - 1 := by
  have hlowest : IsExact (2 ^ 63) :=
    .inr ⟨2 ^ 52, 11, ⟨le_rfl, by norm_num, by norm_num, by norm_num⟩, by norm_num⟩
  change IsExact (Scalar.toInt64OfFloat x).toInt.natAbs ∨ (Scalar.toInt64OfFloat x).toInt = _
  unfold Scalar.toInt64OfFloat
  by_cases hneg : x < 0
  · rw [if_pos hneg, toInt_ofIntClamp]
    left
    by_cases hsmall : (-x).toUInt64.toNat < 2 ^ 63
    · have hexact := (isExact_toUInt64 (-x)).resolve_right (by omega)
      convert hexact using 1
      omega
    · convert hlowest using 1
      omega
  · rw [if_neg hneg, toInt_ofIntClamp]
    by_cases hsmall : x.toUInt64.toNat < 2 ^ 63
    · have hexact := (isExact_toUInt64 x).resolve_right (by omega)
      left
      convert hexact using 1
      omega
    · right
      omega

/-- As a double again, it has its value, or that above it. -/
theorem value_ofInt64_toInt64 (x : Float) :
    (unpacked (Scalar.ofInt64 (Scalar.toInt64 x) : Float)).isFinite = true ∧
      (value (unpacked (Scalar.ofInt64 (Scalar.toInt64 x) : Float)) = (Scalar.toInt64 x).toInt ∨
        (Scalar.toInt64 x).toInt = 2 ^ 63 - 1 ∧
          value (unpacked (Scalar.ofInt64 (Scalar.toInt64 x) : Float)) = (2 ^ 63 : ℤ)) := by
  unfold Scalar.ofInt64
  rcases isExact_toInt64 x with h | h
  · exact ⟨(value_ofInt h).1, .inl (value_ofInt h).2⟩
  · have hrounded : unpacked (Scalar.ofInt (2 ^ 63 - 1)) =
        .finite .positive (2 ^ 52) 11 (by decide) := rfl
    rw [h, hrounded]
    refine ⟨rfl, .inr ⟨rfl, ?_⟩⟩
    norm_num [value]

/-- Signed words stand in the order of the doubles that are truncated to them, rounded or not. -/
theorem not_ofInt64_lt (hx : (unpacked x).isFinite = true) (hy : (unpacked y).isFinite = true)
    (hle : ¬ y < x) :
    ¬ (Scalar.ofInt64 (Scalar.toInt64 y) : Float) < Scalar.ofInt64 (Scalar.toInt64 x) := by
  rw [lt_iff_value hy hx, not_lt] at hle
  obtain ⟨hfinitex, hvaluex⟩ := value_ofInt64_toInt64 x
  obtain ⟨hfinitey, hvaluey⟩ := value_ofInt64_toInt64 y
  have hwords : (Scalar.toInt64 x).toInt ≤ (Scalar.toInt64 y).toInt := by
    rw [toInt_toInt64 hx, toInt_toInt64 hy]
    have := truncate_mono hle
    omega
  have hhigh := (Scalar.toInt64 y).toInt_lt
  rw [lt_iff_value hfinitey hfinitex, not_lt]
  rcases hwords.eq_or_lt with heq | hlt
  · rw [Int64.toInt_inj.mp heq]
  · -- the smaller word is not the largest one, so that only the other one may be rounded
    obtain hvaluex := hvaluex.resolve_right fun h => by omega
    rw [hvaluex]
    rcases hvaluey with hvaluey | ⟨_, hvaluey⟩
    · rw [hvaluey]
      exact_mod_cast hwords
    · rw [hvaluey]
      exact_mod_cast (by omega : (Scalar.toInt64 x).toInt ≤ 2 ^ 63)

/-- What is 1 or more is not truncated to less. -/
theorem not_ofUInt64_lt_one (hx : (unpacked x).isFinite = true) (hone : ¬ x < 1) :
    ¬ (Scalar.ofUInt64 (Scalar.toUInt64 x) : Float) < 1 := by
  have hvalue_one : 1 ≤ value (unpacked x) := by
    rw [lt_iff_value hx rfl, not_lt] at hone
    exact value_one ▸ hone
  have hword : 1 ≤ x.toUInt64.toNat := by
    rw [toNat_toUInt64 hx]
    have := Nat.le_floor (n := 1) (by exact_mod_cast hvalue_one)
    omega
  obtain ⟨hfinite, hvalue⟩ := value_ofUInt64_toUInt64 x
  rw [lt_iff_value hfinite rfl, value_one, not_lt]
  rcases hvalue with hvalue | ⟨_, hvalue⟩
  · rw [hvalue]
    exact_mod_cast hword
  · rw [hvalue]
    norm_num

instance : LawfulWords Float where
  isFinite_ofUInt64 x := isFinite_iff.mpr (value_ofUInt64_toUInt64 x).1
  isInteger_ofUInt64 x := by
    obtain ⟨hfinite, hvalue | ⟨_, hvalue⟩⟩ := value_ofUInt64_toUInt64 x
    · exact (isInteger_iff hfinite).mpr ⟨x.toUInt64.toNat, by exact_mod_cast hvalue⟩
    · exact (isInteger_iff hfinite).mpr ⟨(2 ^ 64 : ℕ), by exact_mod_cast hvalue⟩
  toUInt64_ofUInt64 x := by
    refine UInt64.toNat_inj.mp ?_
    change (Scalar.ofUInt64 (Scalar.toUInt64 x) : Float).toUInt64.toNat = x.toUInt64.toNat
    obtain ⟨hfinite, hvalue | ⟨hlargest, hvalue⟩⟩ := value_ofUInt64_toUInt64 x
    · rw [toNat_toUInt64 hfinite, hvalue, Nat.floor_natCast]
      have := x.toUInt64.toNat_lt
      omega
    · rw [toNat_toUInt64 hfinite, hvalue, Nat.floor_natCast, hlargest]
      rfl
  not_ofUInt64_lt_one hx hone := not_ofUInt64_lt_one (isFinite_iff.mp hx) hone
  isFinite_ofInt64 x := isFinite_iff.mpr (value_ofInt64_toInt64 x).1
  isInteger_ofInt64 x := by
    obtain ⟨hfinite, hvalue | ⟨_, hvalue⟩⟩ := value_ofInt64_toInt64 x
    · exact (isInteger_iff hfinite).mpr ⟨_, hvalue⟩
    · exact (isInteger_iff hfinite).mpr ⟨_, hvalue⟩
  toInt64_ofInt64 x := by
    refine Int64.toInt_inj.mp ?_
    obtain ⟨hfinite, hvalue | ⟨hlargest, hvalue⟩⟩ := value_ofInt64_toInt64 x
    · rw [toInt_toInt64 hfinite, hvalue, truncate_intCast]
      have hlow := (Scalar.toInt64 x).le_toInt
      have hhigh := (Scalar.toInt64 x).toInt_lt
      omega
    · rw [toInt_toInt64 hfinite, hvalue, truncate_intCast, hlargest]
      rfl
  not_ofInt64_lt hx hy hle := not_ofInt64_lt (isFinite_iff.mp hx) (isFinite_iff.mp hy) hle

instance : LawfulTruncation Float where
  toUInt64_mono {x y} hx hy hle := by
    have hx := isFinite_iff.mp hx
    have hy := isFinite_iff.mp hy
    rw [lt_iff_value hy hx, not_lt] at hle
    change x.toUInt64.toNat ≤ y.toUInt64.toNat
    rw [toNat_toUInt64 hx, toNat_toUInt64 hy]
    have := Nat.floor_mono hle
    omega

end Integers

end InfoFlow.Double
