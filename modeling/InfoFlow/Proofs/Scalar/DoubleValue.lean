import InfoFlow.Proofs.Scalar.Double

open Float.Model Float.Model.UnpackedFloat

namespace InfoFlow.Double

section Storing

/-- A mantissa that has all its bits, and an exponent that a double can have with it. -/
structure IsFull (m : ℕ) (e : ℤ) : Prop where
  mantissa_ge : 2 ^ 52 ≤ m
  mantissa_lt : m < 2 ^ 53
  exponent_ge : -1074 ≤ e
  exponent_le : e ≤ 971

variable {m : ℕ} {e : ℤ} {s : Sign}

theorem IsFull.pos (h : IsFull m e) : 0 < m := by
  have := h.mantissa_ge
  omega

theorem IsFull.isCanonical (h : IsFull m e) : IsCanonical m e :=
  ⟨h.mantissa_lt, h.exponent_ge, .inr h.mantissa_ge⟩

theorem log2_mul_pow (hm : 0 < m) (k : ℕ) : (m * 2 ^ k).log2 = m.log2 + k := by
  induction k with
  | zero => simp
  | succ k ih =>
    rw [pow_succ', Nat.mul_left_comm, Nat.log2_two_mul (by positivity), ih]
    rfl

theorem shiftRight_mul_pow (m k : ℕ) :
    (⟨m * 2 ^ k, false, false⟩ : ExtendedMantissa) >>> k = ⟨m, false, false⟩ := by
  change Nat.repeat ExtendedMantissa.shiftRightOne k _ = _
  induction k generalizing m with
  | zero => simp [Nat.repeat]
  | succ k ih =>
    rw [pow_succ', ← Nat.mul_assoc]
    simp only [Nat.repeat]
    rw [ih]
    simp [ExtendedMantissa.shiftRightOne]

/-- The exponent of the first bit does not depend on how many zeros are written at the end. -/
theorem totalExponent_mul (hm : 0 < m) (k : ℕ) :
    totalExponent (m * 2 ^ k) (e - k) = totalExponent m e := by
  unfold totalExponent
  rw [log2_mul_pow hm]
  omega

theorem IsCanonical.targetExponent_eq (h : IsCanonical m e) (hm : 0 < m) :
    Format.binary64.targetExponent (totalExponent m e) = e := by
  have hmin : Format.binary64.minExponent = -1074 := rfl
  have hbits : (Format.binary64.mantissaBits : ℤ) = 53 := rfl
  have hlt : m.log2 < 53 := (Nat.log2_lt hm.ne').mpr h.mantissa_lt
  have hge := h.exponent_ge
  unfold Format.targetExponent totalExponent
  rw [hmin, hbits]
  rcases h.normal_or_least with rfl | hfull
  · omega
  · have hlog : 52 ≤ m.log2 := (Nat.le_log2 hm.ne').mpr hfull
    omega

/-- Zeros at the end of a mantissa are cut off, down to the bits that a double keeps. -/
theorem shiftToTargetExponent_mul (h : IsCanonical m e) (hm : 0 < m) (k : ℕ) :
    shiftToTargetExponent Format.binary64 (m * 2 ^ k) (e - k) .exact = (⟨m, false, false⟩, e) := by
  have hshift : (e - (e - k)).toNat = k := by omega
  unfold shiftToTargetExponent shiftToExponent
  simp only [totalExponent_mul hm, h.targetExponent_eq hm, hshift,
    ExtendedMantissa.ofMantissaAndAccuracy, shiftRight_mul_pow, sub_add_cancel]

/-- Numbers that can be stored are not rounded, even if they are written with more bits. -/
theorem roundWithAccuracy_mul (h : IsCanonical m e) (hm : 0 < m) (k : ℕ) :
    roundWithAccuracy Format.binary64 s (m * 2 ^ k) (e - k) .exact = .finite s m e hm := by
  have hsecond := shiftToTargetExponent_mul h hm 0
  rw [pow_zero, mul_one, Nat.cast_zero, sub_zero] at hsecond
  have hne := hm.ne'
  unfold roundWithAccuracy
  rw [shiftToTargetExponent_mul h hm k]
  simp only [ExtendedMantissa.roundedMantissa, ExtendedMantissa.accuracy,
    Accuracy.roundToNearestEven, hsecond, hne, dite_false]

/-- A double keeps the numbers that it can store. -/
theorem repack_full (h : IsFull m e) : repack (.finite s m e h.pos) = .finite s m e h.pos := by
  obtain ⟨hge, hlt, hlow, hhigh⟩ := h
  have hlog : m.log2 = 52 := (Nat.log2_eq_iff (by omega)).mpr ⟨hge, hlt⟩
  have hbits : m.log2 + 1 = Format.binary64.mantissaBits := by rw [hlog]; rfl
  have hbiased :
      (e + Format.binary64.exponentBias + Format.binary64.mantissaBitsWithoutImplicit).toNat =
        (e + 1075).toNat := by
    congr 1
    change e + 1023 + 52 = _
    omega
  have hroom : ¬ 2 ^ Format.binary64.exponentBits ≤ (e + 1075).toNat + 1 := by
    change ¬ 2048 ≤ _
    omega
  unfold repack
  rw [UnpackedFloat.pack]
  simp only [hbiased, if_neg hroom, if_pos hbits]
  unfold UnpackedFloat.unpack
  simp only [unpackMantissa_packComponents, unpackExponent_packComponents,
      unpackSign_packComponents, Sign.ofBitVec_toBitVec]
  have htoNat : (BitVec.ofNat 11 (e + 1075).toNat).toNat = (e + 1075).toNat := by
    rw [BitVec.toNat_ofNat]
    exact Nat.mod_eq_of_lt (by omega)
  have hmantissa : (1#1 ++ BitVec.ofNat 52 m).toNat = m := by
    have hrest : (BitVec.ofNat 52 m).toNat = m - 2 ^ 52 := by
      rw [BitVec.toNat_ofNat, Nat.mod_eq_sub_mod hge, Nat.mod_eq_of_lt (by omega)]
    rw [BitVec.toNat_append, hrest, ← Nat.shiftLeft_add_eq_or_of_lt (by omega), BitVec.toNat_ofNat,
      Nat.shiftLeft_eq]
    omega
  have hall : BitVec.ofNat Format.binary64.exponentBits (e + 1075).toNat ≠ -1#_ := by
    intro heq
    have hvalue := congrArg BitVec.toNat heq
    rw [htoNat] at hvalue
    change _ = 2047 at hvalue
    omega
  have hzero : BitVec.ofNat Format.binary64.exponentBits (e + 1075).toNat ≠ 0#_ := by
    intro heq
    have hvalue := congrArg BitVec.toNat heq
    rw [htoNat] at hvalue
    change _ = 0 at hvalue
    omega
  rw [if_neg hall, if_neg hzero]
  congr 1
  rw [htoNat]
  change ((e + 1075).toNat : ℤ) - (1023 + 52) = e
  omega

/-- So does it keep the numbers with the least exponent. -/
theorem repack_least (hm : 0 < m) (hlt : m < 2 ^ 52) :
    repack (.finite s m (-1074) hm) = .finite s m (-1074) hm := by
  have hlog : m.log2 < 52 := (Nat.log2_lt hm.ne').mpr hlt
  have hbits : ¬ m.log2 + 1 = Format.binary64.mantissaBits := by
    change ¬ m.log2 + 1 = 53
    omega
  have hroom : ¬ 2 ^ Format.binary64.exponentBits ≤
      ((-1074 : ℤ) + Format.binary64.exponentBias + Format.binary64.mantissaBitsWithoutImplicit).toNat
        + 1 := by decide
  have htoNat : (BitVec.ofNat 52 m).toNat = m := by
    rw [BitVec.toNat_ofNat]
    exact Nat.mod_eq_of_lt hlt
  have hne : BitVec.ofNat 52 m ≠ 0#52 := by
    intro heq
    have hvalue := congrArg BitVec.toNat heq
    rw [htoNat] at hvalue
    exact hm.ne' hvalue
  have hall : (0#11 : BitVec 11) ≠ -1#11 := by decide
  unfold repack
  rw [UnpackedFloat.pack]
  simp only [if_neg hroom, if_neg hbits]
  unfold UnpackedFloat.unpack
  simp only [unpackMantissa_packComponents, unpackExponent_packComponents,
    unpackSign_packComponents, Sign.ofBitVec_toBitVec, if_neg hall, if_true, dif_neg hne]
  congr 1

theorem repack_canonical (h : IsCanonical m e) (hm : 0 < m) (he : e ≤ 971) :
    repack (.finite s m e hm) = .finite s m e hm := by
  by_cases hge : 2 ^ 52 ≤ m
  · exact repack_full ⟨hge, h.mantissa_lt, h.exponent_ge, he⟩
  · obtain rfl : e = -1074 := h.normal_or_least.resolve_right hge
    exact repack_least hm (by omega)

theorem exponent_le_of_unpacked {x : Float} {hm : 0 < m} (h : unpacked x = .finite s m e hm) :
    e ≤ 971 := by
  have hexponent : (@unpackExponent Format.binary64 x.toModel.toBits.toBitVec).toNat < 2 ^ 11 :=
    BitVec.isLt _
  unfold unpacked Float.Model.unpack UnpackedFloat.unpack at h
  simp only at h
  split at h
  · split at h <;> cases h
  · rename_i hall
    have hne : (@unpackExponent Format.binary64 x.toModel.toBits.toBitVec).toNat ≠ 2047 :=
      fun heq => hall (BitVec.eq_of_toNat_eq heq)
    split at h
    · rename_i hzero
      split at h
      · cases h
      · cases h
        rw [hzero]
        decide
    · cases h
      change ((@unpackExponent Format.binary64 x.toModel.toBits.toBitVec).toNat : ℤ) - (1023 + 52) ≤ 971
      omega

/-- A double whose exponent is not the least one has all the bits of its mantissa. -/
theorem isFull_of_unpacked {x : Float} {hm : 0 < m} (h : unpacked x = .finite s m e hm)
    (hge : 2 ^ 52 ≤ m) : IsFull m e :=
  ⟨hge, (isCanonical_of_unpacked h).mantissa_lt, (isCanonical_of_unpacked h).exponent_ge,
    exponent_le_of_unpacked h⟩

/-- What a double stores is stored again as it is, with either sign. -/
theorem repack_of_unpacked {x : Float} {hm : 0 < m} (h : unpacked x = .finite s m e hm) (t : Sign) :
    repack (.finite t m e hm) = .finite t m e hm :=
  repack_canonical (isCanonical_of_unpacked h) hm (exponent_le_of_unpacked h)

theorem unpacked_neg (x : Float) : unpacked (-x) = (unpacked x).neg := by
  change repack (unpacked x).neg = _
  cases h : unpacked x with
  | notANumber => rfl
  | infinity t => exact repack_infinity _
  | zero t => exact repack_zero _
  | finite t m e hm => exact repack_of_unpacked h _

end Storing

section Values

/-- The number that a finite double stands for; 0 for the others. -/
def value : UnpackedFloat → ℚ
  | .finite .positive m e _ => m * 2 ^ e
  | .finite .negative m e _ => -(m * 2 ^ e)
  | _ => 0

theorem value_neg (u : UnpackedFloat) : value u.neg = -value u := by
  rcases u with _ | _ | _ | ⟨_ | _, m, e, hm⟩
  · exact neg_zero.symm
  · exact neg_zero.symm
  · exact neg_zero.symm
  · exact (neg_neg _).symm
  · rfl

/-- The order of canonical numbers without sign is that of their values. -/
theorem compare_canonical {m₁ m₂ : ℕ} {e₁ e₂ : ℤ} (h₁ : IsCanonical m₁ e₁) (h₂ : IsCanonical m₂ e₂) :
    (compare e₁ e₂).then (compare m₁ m₂) = compare (m₁ * 2 ^ e₁ : ℚ) (m₂ * 2 ^ e₂) := by
  have hless {m₁ m₂ : ℕ} {e₁ e₂ : ℤ} (h₁ : IsCanonical m₁ e₁) (h₂ : IsCanonical m₂ e₂)
      (hlt : e₁ < e₂) : (m₁ * 2 ^ e₁ : ℚ) < m₂ * 2 ^ e₂ := by
    have hfull : 2 ^ 52 ≤ m₂ := h₂.normal_or_least.resolve_left (by have := h₁.exponent_ge; omega)
    have hstep : (2 : ℚ) ^ (e₁ + 1) ≤ 2 ^ e₂ := zpow_le_zpow_right₀ (by norm_num) (by omega)
    calc (m₁ * 2 ^ e₁ : ℚ) < 2 ^ 53 * 2 ^ e₁ := by
          have : (m₁ : ℚ) < 2 ^ 53 := by exact_mod_cast h₁.mantissa_lt
          gcongr
      _ = 2 ^ 52 * 2 ^ (e₁ + 1) := by
          rw [zpow_add_one₀ (by norm_num)]
          ring
      _ ≤ m₂ * 2 ^ e₂ := by
          have : (2 ^ 52 : ℚ) ≤ m₂ := by exact_mod_cast hfull
          gcongr
  rcases lt_trichotomy e₁ e₂ with hlt | rfl | hgt
  · rw [Int.compare_eq_lt.mpr hlt, compare_lt_iff_lt.mpr (hless h₁ h₂ hlt)]
    rfl
  · have hpos : (0 : ℚ) < 2 ^ e₁ := by positivity
    rw [Int.compare_eq_eq.mpr rfl]
    rcases lt_trichotomy m₁ m₂ with hlt | rfl | hgt
    · have : (m₁ : ℚ) < m₂ := by exact_mod_cast hlt
      rw [compare_lt_iff_lt.mpr (mul_lt_mul_of_pos_right this hpos)]
      exact Nat.compare_eq_lt.mpr hlt
    · simp
    · have : (m₂ : ℚ) < m₁ := by exact_mod_cast hgt
      rw [compare_gt_iff_gt.mpr (mul_lt_mul_of_pos_right this hpos)]
      exact Nat.compare_eq_gt.mpr hgt
  · rw [Int.compare_eq_gt.mpr hgt, compare_gt_iff_gt.mpr (hless h₂ h₁ hgt)]
    rfl

theorem compare_neg_neg (a b : ℚ) : compare (-a) (-b) = (compare a b).swap := by
  rcases lt_trichotomy a b with h | rfl | h
  · rw [compare_lt_iff_lt.mpr h, compare_gt_iff_gt.mpr (neg_lt_neg h)]
    rfl
  · simp
  · rw [compare_gt_iff_gt.mpr h, compare_lt_iff_lt.mpr (neg_lt_neg h)]
    rfl

variable {x y : Float}

/-- Finite doubles are compared by value. -/
theorem compare_eq (hx : (unpacked x).isFinite = true) (hy : (unpacked y).isFinite = true) :
    UnpackedFloat.compare (unpacked x) (unpacked y) =
      some (compare (value (unpacked x)) (value (unpacked y))) := by
  have hpositive (m : ℕ) (e : ℤ) (hm : 0 < m) : (0 : ℚ) < m * 2 ^ e := by positivity
  rcases hu : unpacked x with _ | _ | _ | ⟨_ | _, m₁, e₁, h₁⟩ <;>
    rcases hv : unpacked y with _ | _ | _ | ⟨_ | _, m₂, e₂, h₂⟩ <;>
      rw [hu] at hx <;> rw [hv] at hy <;> try cases hx <;> try cases hy
  case zero.zero => simp [UnpackedFloat.compare, value]
  case zero.finite.negative =>
    simp only [UnpackedFloat.compare, value]
    rw [compare_gt_iff_gt.mpr (neg_lt_zero.mpr (hpositive m₂ e₂ h₂))]
  case zero.finite.positive =>
    simp only [UnpackedFloat.compare, value]
    rw [compare_lt_iff_lt.mpr (hpositive m₂ e₂ h₂)]
  case finite.negative.zero =>
    simp only [UnpackedFloat.compare, value]
    rw [compare_lt_iff_lt.mpr (neg_lt_zero.mpr (hpositive m₁ e₁ h₁))]
  case finite.positive.zero =>
    simp only [UnpackedFloat.compare, value]
    rw [compare_gt_iff_gt.mpr (hpositive m₁ e₁ h₁)]
  case finite.negative.finite.negative =>
    simp only [UnpackedFloat.compare, value]
    rw [compare_neg_neg, compare_canonical (isCanonical_of_unpacked hu) (isCanonical_of_unpacked hv)]
  case finite.negative.finite.positive =>
    simp only [UnpackedFloat.compare, value]
    rw [compare_lt_iff_lt.mpr ((neg_lt_zero.mpr (hpositive m₁ e₁ h₁)).trans (hpositive m₂ e₂ h₂))]
  case finite.positive.finite.negative =>
    simp only [UnpackedFloat.compare, value]
    rw [compare_gt_iff_gt.mpr ((neg_lt_zero.mpr (hpositive m₂ e₂ h₂)).trans (hpositive m₁ e₁ h₁))]
  case finite.positive.finite.positive =>
    simp only [UnpackedFloat.compare, value]
    rw [compare_canonical (isCanonical_of_unpacked hu) (isCanonical_of_unpacked hv)]

theorem lt_iff_value (hx : (unpacked x).isFinite = true) (hy : (unpacked y).isFinite = true) :
    x < y ↔ value (unpacked x) < value (unpacked y) := by
  rw [lt_iff, compare_eq hx hy, Option.some_inj, compare_lt_iff_lt]

theorem floor_mul_zpow (m : ℕ) (e : ℤ) : ⌊(m * 2 ^ e : ℚ)⌋₊ = m * 2 ^ e.toNat / 2 ^ (-e).toNat := by
  obtain ⟨n, rfl | rfl⟩ := e.eq_nat_or_neg
  · rw [Int.toNat_natCast, Int.toNat_neg_natCast, pow_zero, Nat.div_one, zpow_natCast]
    exact_mod_cast Nat.floor_natCast (m * 2 ^ n)
  · rw [Int.toNat_neg_natCast, neg_neg, Int.toNat_natCast, pow_zero, mul_one, zpow_neg, zpow_natCast,
      ← div_eq_mul_inv, ← Nat.floor_div_eq_div (K := ℚ), Nat.cast_pow, Nat.cast_ofNat]

theorem shiftRight_mantissa (em : ExtendedMantissa) (k : ℕ) :
    (em >>> k).mantissa = em.mantissa / 2 ^ k := by
  change (Nat.repeat ExtendedMantissa.shiftRightOne k em).mantissa = _
  induction k with
  | zero => simp [Nat.repeat]
  | succ k ih =>
    simp only [Nat.repeat, ExtendedMantissa.shiftRightOne, ih]
    rw [Nat.div_div_eq_div_mul, pow_succ]

/-- A finite double is truncated to a whole number. -/
theorem roundToInt_eq (s : Sign) (m : ℕ) (e : ℤ) :
    roundToInt s m e = s.apply ⌊(m * 2 ^ e : ℚ)⌋₊ := by
  have hshift : (0 - (e - (e.toNat : ℤ))).toNat = (-e).toNat := by omega
  unfold roundToInt decreaseExponent shiftToExponent
  simp only [sub_zero, hshift, shiftRight_mantissa, ExtendedMantissa.ofMantissaAndAccuracy,
    Nat.shiftLeft_eq, floor_mul_zpow]

theorem toNat_ofNatClamp (n : ℕ) : (UInt64.ofNatClamp n).toNat = min n (2 ^ 64 - 1) := by
  unfold UInt64.ofNatClamp
  split
  · rename_i hlt
    rw [UInt64.toNat_ofNatLT]
    simp only [UInt64.size] at hlt
    omega
  · rename_i hge
    rw [UInt64.toNat_ofNatLT]
    simp only [UInt64.size] at hge ⊢
    omega

theorem toNat_toUInt64 (hx : (unpacked x).isFinite = true) :
    x.toUInt64.toNat = min ⌊value (unpacked x)⌋₊ (2 ^ 64 - 1) := by
  change (UnpackedFloat.toUInt64 (unpacked x)).toNat = _
  unfold UnpackedFloat.toUInt64
  rw [toNat_ofNatClamp]
  congr 1
  generalize unpacked x = u at hx
  rcases u with _ | _ | _ | ⟨_ | _, m, e, hm⟩
  · cases hx
  · cases hx
  · simp [UnpackedFloat.toInt, value]
  · have hneg : -(m * 2 ^ e : ℚ) ≤ 0 := neg_nonpos.mpr (by positivity)
    simp only [UnpackedFloat.toInt, value, roundToInt_eq, Sign.apply, Nat.floor_of_nonpos hneg]
    omega
  · simp only [UnpackedFloat.toInt, value, roundToInt_eq, Sign.apply, Int.toNat_natCast]

end Values

end InfoFlow.Double
