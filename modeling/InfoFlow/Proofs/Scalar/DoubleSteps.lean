import InfoFlow.Proofs.Scalar.DoubleRounding

open Float.Model Float.Model.UnpackedFloat

namespace InfoFlow.Double

section Patterns

variable {n : ℕ} {b : UInt64} {x : Float}

/-- The mantissa that a bit pattern without sign stands for: its low 52 bits, after a first bit if the
exponent is not the least one. -/
def patternMantissa (n : ℕ) : ℕ := if n < 2 ^ 52 then n else 2 ^ 52 + n % 2 ^ 52

/-- The exponent of its last bit. -/
def patternExponent (n : ℕ) : ℤ := if n < 2 ^ 52 then -1074 else (n / 2 ^ 52 : ℕ) - 1075

def patternValue (n : ℕ) : ℚ := patternMantissa n * 2 ^ patternExponent n

theorem isCanonical_pattern (n : ℕ) : IsCanonical (patternMantissa n) (patternExponent n) := by
  unfold patternMantissa patternExponent
  split
  · exact ⟨by omega, le_rfl, .inl rfl⟩
  · exact ⟨by omega, by omega, .inr (by omega)⟩

/-- The next pattern has the next mantissa, or the least one with the next exponent. -/
theorem patternValue_succ (n : ℕ) : patternValue (n + 1) = patternValue n + 2 ^ patternExponent n := by
  rcases Nat.lt_or_ge (n % 2 ^ 52 + 1) (2 ^ 52) with hroom | hcarry
  · have hexponent : patternExponent (n + 1) = patternExponent n := by
      unfold patternExponent
      split_ifs <;> omega
    have hmantissa : patternMantissa (n + 1) = patternMantissa n + 1 := by
      unfold patternMantissa
      split_ifs <;> omega
    unfold patternValue
    rw [hexponent, hmantissa, Nat.cast_succ]
    ring
  · have hleast : patternMantissa (n + 1) = 2 ^ 52 := by
      unfold patternMantissa
      split_ifs <;> omega
    unfold patternValue
    rw [hleast]
    by_cases hfirst : n < 2 ^ 52
    · have hexponent : patternExponent (n + 1) = patternExponent n := by
        unfold patternExponent
        split_ifs <;> omega
      have hmantissa : 2 ^ 52 = patternMantissa n + 1 := by
        unfold patternMantissa
        split_ifs
        omega
      rw [hexponent, hmantissa, Nat.cast_succ]
      ring
    · have hexponent : patternExponent (n + 1) = patternExponent n + 1 := by
        unfold patternExponent
        split_ifs <;> omega
      have hmantissa : patternMantissa n + 1 = 2 ^ 53 := by
        unfold patternMantissa
        split_ifs
        omega
      have hcast : (patternMantissa n : ℚ) + 1 = 2 ^ 53 := by exact_mod_cast hmantissa
      rw [hexponent, zpow_add_one₀ two_ne_zero, eq_sub_of_add_eq hcast]
      push_cast
      ring

theorem patternValue_lt_succ (n : ℕ) : patternValue n < patternValue (n + 1) := by
  rw [patternValue_succ]
  exact lt_add_of_pos_right _ (by positivity)

theorem toNat_unpackMantissa (b : UInt64) :
    (@unpackMantissa Format.binary64 b.toBitVec).toNat = b.toNat % 2 ^ 52 := by
  change (BitVec.extractLsb 51 0 b.toBitVec).toNat = _
  rw [BitVec.extractLsb_toNat]
  rfl

theorem toNat_unpackExponent (b : UInt64) :
    (@unpackExponent Format.binary64 b.toBitVec).toNat = b.toNat / 2 ^ 52 % 2 ^ 11 := by
  change (BitVec.extractLsb 62 52 b.toBitVec).toNat = _
  rw [BitVec.extractLsb_toNat, Nat.shiftRight_eq_div_pow]
  rfl

theorem toNat_unpackSign (b : UInt64) :
    (@unpackSign Format.binary64 b.toBitVec).toNat = b.toNat / 2 ^ 63 := by
  have hb := b.toNat_lt
  change (BitVec.extractLsb 63 63 b.toBitVec).toNat = _
  rw [BitVec.extractLsb_toNat, Nat.shiftRight_eq_div_pow]
  change b.toNat / 2 ^ 63 % 2 ^ 1 = _
  omega

theorem unpackExponent_eq_iff (b : UInt64) (e : BitVec 11) :
    @unpackExponent Format.binary64 b.toBitVec = e ↔ b.toNat / 2 ^ 52 % 2 ^ 11 = e.toNat := by
  rw [← toNat_unpackExponent]
  exact ⟨congrArg _, BitVec.eq_of_toNat_eq⟩

theorem ofBitVec_unpackSign (b : UInt64) : Sign.ofBitVec (@unpackSign Format.binary64 b.toBitVec) =
    if b.toNat < 2 ^ 63 then .positive else .negative := by
  have hsign := toNat_unpackSign b
  have hb := b.toNat_lt
  split
  · have hzero : @unpackSign Format.binary64 b.toBitVec = 0#1 := by
      refine BitVec.eq_of_toNat_eq (hsign.trans ?_)
      change _ = 0
      omega
    rw [hzero]
    rfl
  · have hone : @unpackSign Format.binary64 b.toBitVec = 1#1 := by
      refine BitVec.eq_of_toNat_eq (hsign.trans ?_)
      change _ = 1
      omega
    rw [hone]
    rfl

/-- The patterns that are, without their sign, below those of infinities and NaNs are those of the finite
doubles. -/
theorem unpack_pattern (hb : b.toNat % 2 ^ 63 < 2047 * 2 ^ 52) :
    (b.toNat % 2 ^ 63 = 0 ∧ UnpackedFloat.unpack Format.binary64 b.toBitVec =
        .zero (if b.toNat < 2 ^ 63 then .positive else .negative)) ∨
      ∃ hm, UnpackedFloat.unpack Format.binary64 b.toBitVec =
        .finite (if b.toNat < 2 ^ 63 then .positive else .negative)
          (patternMantissa (b.toNat % 2 ^ 63)) (patternExponent (b.toNat % 2 ^ 63)) hm := by
  have hall : @unpackExponent Format.binary64 b.toBitVec ≠ -1#11 := by
    rw [ne_eq, unpackExponent_eq_iff]
    change ¬ _ = 2047
    omega
  have hleast : @unpackExponent Format.binary64 b.toBitVec = 0#11 ↔ b.toNat % 2 ^ 63 < 2 ^ 52 := by
    rw [unpackExponent_eq_iff]
    change _ = 0 ↔ _
    omega
  have hmantissa := toNat_unpackMantissa b
  unfold UnpackedFloat.unpack
  simp only [ofBitVec_unpackSign]
  rw [if_neg hall]
  unfold patternMantissa patternExponent
  by_cases hsmall : b.toNat % 2 ^ 63 < 2 ^ 52
  · rw [if_pos (hleast.mpr hsmall), if_pos hsmall, if_pos hsmall, hleast.mpr hsmall]
    rw [show b.toNat % 2 ^ 52 = b.toNat % 2 ^ 63 by omega] at hmantissa
    split
    · rename_i hzero
      rw [hzero] at hmantissa
      exact .inl ⟨hmantissa.symm, rfl⟩
    · rename_i hne
      refine .inr ⟨Nat.pos_of_ne_zero fun hzero => hne (BitVec.eq_of_toNat_eq (hmantissa.trans hzero)), ?_⟩
      congr 1
  · rw [if_neg (mt hleast.mp hsmall), if_neg hsmall, if_neg hsmall]
    have hfull : (1#1 ++ @unpackMantissa Format.binary64 b.toBitVec).toNat =
        2 ^ 52 + b.toNat % 2 ^ 63 % 2 ^ 52 := by
      rw [BitVec.toNat_append, ← Nat.shiftLeft_add_eq_or_of_lt (BitVec.isLt _), hmantissa,
        Nat.mod_mod_of_dvd _ (by norm_num)]
      rfl
    have hexponent := toNat_unpackExponent b
    refine .inr ⟨by omega, ?_⟩
    congr 1
    change ((@unpackExponent Format.binary64 b.toBitVec).toNat : ℤ) - (1023 + 52) = _
    omega

theorem value_unpack (hb : b.toNat % 2 ^ 63 < 2047 * 2 ^ 52) :
    value (UnpackedFloat.unpack Format.binary64 b.toBitVec) =
      if b.toNat < 2 ^ 63 then patternValue (b.toNat % 2 ^ 63)
      else -patternValue (b.toNat % 2 ^ 63) := by
  rcases unpack_pattern hb with ⟨hzero, hunpack⟩ | ⟨hm, hunpack⟩
  · rw [hunpack, hzero]
    simp [patternValue, patternMantissa, value]
  · rw [hunpack]
    split <;> rfl

/-- Finite doubles have such patterns. -/
theorem toNat_toBits_lt (hx : (unpacked x).isFinite = true) :
    x.toBits.toNat % 2 ^ 63 < 2047 * 2 ^ 52 := by
  have hunpacked : unpacked x = UnpackedFloat.unpack Format.binary64 x.toBits.toBitVec := rfl
  have hbits := x.toBits.toNat_lt
  have hexponent : x.toBits.toNat / 2 ^ 52 % 2 ^ 11 ≠ 2047 := by
    intro hall
    rw [hunpacked, UnpackedFloat.unpack] at hx
    simp only at hx
    rw [if_pos ((unpackExponent_eq_iff _ _).mpr hall)] at hx
    split at hx <;> cases hx
  omega

theorem value_eq_patternValue (hx : (unpacked x).isFinite = true) :
    value (unpacked x) = if x.toBits.toNat < 2 ^ 63 then patternValue (x.toBits.toNat % 2 ^ 63)
      else -patternValue (x.toBits.toNat % 2 ^ 63) := value_unpack (toNat_toBits_lt hx)

theorem patternValue_nonneg (n : ℕ) : 0 ≤ patternValue n := by
  unfold patternValue
  positivity

theorem value_ofBits (hb : b.toNat < 2047 * 2 ^ 52) : (unpacked (Float.ofBits b)).isFinite = true ∧
    value (unpacked (Float.ofBits b)) = patternValue b.toNat := by
  have hmod : b.toNat % 2 ^ 63 = b.toNat := Nat.mod_eq_of_lt (by omega)
  have hpattern := unpack_pattern (b := b) (by omega)
  rw [hmod, if_pos (by omega)] at hpattern
  change (repack (UnpackedFloat.unpack Format.binary64 b.toBitVec)).isFinite = true ∧
    value (repack (UnpackedFloat.unpack Format.binary64 b.toBitVec)) = _
  rcases hpattern with ⟨hzero, hunpack⟩ | ⟨hm, hunpack⟩
  · rw [hunpack, repack_zero, hzero]
    exact ⟨rfl, by simp [patternValue, patternMantissa, value]⟩
  · have hsmall : patternExponent b.toNat ≤ 971 := by
      unfold patternExponent
      split_ifs <;> omega
    rw [hunpack, repack_canonical (isCanonical_pattern _) hm hsmall]
    exact ⟨rfl, rfl⟩

/-- The patterns of positive doubles have no sign. -/
theorem toNat_toBits_of_pos (hx : (unpacked x).isFinite = true) (hpos : 0 < value (unpacked x)) :
    0 < x.toBits.toNat ∧ x.toBits.toNat < 2047 * 2 ^ 52 ∧
      value (unpacked x) = patternValue x.toBits.toNat := by
  have hlt := toNat_toBits_lt hx
  have hvalue := value_eq_patternValue hx
  have hsign : x.toBits.toNat < 2 ^ 63 := by
    by_contra hnot
    rw [hvalue, if_neg hnot] at hpos
    exact absurd hpos (not_lt.mpr (neg_nonpos.mpr (patternValue_nonneg _)))
  rw [if_pos hsign, Nat.mod_eq_of_lt hsign] at hvalue
  rw [Nat.mod_eq_of_lt hsign] at hlt
  refine ⟨Nat.pos_of_ne_zero fun hzero => ?_, hlt, hvalue⟩
  rw [hvalue, hzero] at hpos
  simp [patternValue, patternMantissa] at hpos

/-- The double before a positive double is smaller, and not negative. -/
theorem value_predecessor (hx : (unpacked x).isFinite = true) (hpos : 0 < value (unpacked x)) :
    (unpacked (Scalar.predecessor x)).isFinite = true ∧ 0 ≤ value (unpacked (Scalar.predecessor x)) ∧
      value (unpacked (Scalar.predecessor x)) < value (unpacked x) := by
  obtain ⟨hpositive, hsmall, hvalue⟩ := toNat_toBits_of_pos hx hpos
  obtain ⟨n, hn⟩ := Nat.exists_eq_succ_of_ne_zero hpositive.ne'
  have hprevious : (x.toBits - 1).toNat = n := by
    have hone : 1 ≤ x.toBits := UInt64.le_iff_toNat_le.mpr hpositive
    rw [UInt64.toNat_sub_of_le _ _ hone, hn]
    rfl
  obtain ⟨hfinite, heq⟩ := value_ofBits (b := x.toBits - 1) (by omega)
  change (unpacked (Float.ofBits (x.toBits - 1))).isFinite = true ∧
    0 ≤ value (unpacked (Float.ofBits (x.toBits - 1))) ∧
    value (unpacked (Float.ofBits (x.toBits - 1))) < _
  rw [heq, hvalue, hprevious, hn]
  exact ⟨hfinite, patternValue_nonneg n, patternValue_lt_succ n⟩

theorem patternValue_injective : patternValue.Injective :=
  (strictMono_nat_of_lt_succ patternValue_lt_succ).injective

theorem eq_of_toBits {y : Float} (h : x.toBits.toNat = y.toBits.toNat) : x = y := by
  obtain ⟨⟨a, ha⟩⟩ := x
  obtain ⟨⟨b, hb⟩⟩ := y
  obtain rfl : a = b := UInt64.toNat_inj.mp h
  rfl

/-- Doubles that stand for the same number are the same, unless it is 0. -/
theorem eq_of_value {y : Float} (hx : (unpacked x).isFinite = true)
    (hy : (unpacked y).isFinite = true) (h : value (unpacked x) = value (unpacked y))
    (hne : value (unpacked x) ≠ 0) : x = y := by
  have hxbits := x.toBits.toNat_lt
  have hybits := y.toBits.toNat_lt
  have hxlow := patternValue_nonneg (x.toBits.toNat % 2 ^ 63)
  have hylow := patternValue_nonneg (y.toBits.toNat % 2 ^ 63)
  rw [h] at hne
  rw [value_eq_patternValue hx, value_eq_patternValue hy] at h
  rw [value_eq_patternValue hy] at hne
  apply eq_of_toBits
  split_ifs at h hne with hxsign hysign hysign
  · have hsame := patternValue_injective h
    omega
  · exact absurd (by linarith) hne
  · exact absurd (by linarith) hne
  · have hsame := patternValue_injective (neg_injective h)
    omega

/-- Zeros are the same if their signs are. -/
theorem eq_of_zero {y : Float} {s : Sign} (hx : unpacked x = .zero s) (hy : unpacked y = .zero s) :
    x = y := by
  have hbits {z : Float} (hz : unpacked z = .zero s) : z.toBits.toNat % 2 ^ 63 = 0 ∧
      s = if z.toBits.toNat < 2 ^ 63 then .positive else .negative := by
    rcases unpack_pattern (toNat_toBits_lt (x := z) (by rw [hz]; rfl)) with ⟨hlow, hz'⟩ | ⟨_, hz'⟩
    · exact ⟨hlow, UnpackedFloat.zero.inj (hz.symm.trans hz')⟩
    · cases hz.symm.trans hz'
  obtain ⟨hxlow, hxsign⟩ := hbits hx
  obtain ⟨hylow, hysign⟩ := hbits hy
  have hxbits := x.toBits.toNat_lt
  have hybits := y.toBits.toNat_lt
  apply eq_of_toBits
  rw [hxsign] at hysign
  split_ifs at hysign <;> omega

end Patterns

section Gaps

variable {q r : ℚ} {m : ℕ} {e : ℤ}

/-- Doubles are multiples of the least positive one. -/
theorem IsStored.exists_multiple (h : IsStored q) : ∃ i : ℤ, q = i * 2 ^ (-1074 : ℤ) := by
  obtain ⟨m, e, hcanonical, -, habs⟩ := h
  obtain ⟨k, hk⟩ := Int.eq_ofNat_of_zero_le (sub_nonneg.mpr hcanonical.exponent_ge)
  have hpower : (2 : ℚ) ^ e = 2 ^ k * 2 ^ (-1074 : ℤ) := by
    rw [← zpow_natCast, ← zpow_add₀ two_ne_zero]
    congr 1
    omega
  rcases abs_choice q with hq | hq
  · refine ⟨m * 2 ^ k, ?_⟩
    rw [← hq, habs, hpower, ← mul_assoc]
    norm_cast
  · refine ⟨-(m * 2 ^ k), ?_⟩
    rw [← neg_neg q, ← hq, habs, hpower, ← mul_assoc, ← neg_mul]
    norm_cast

/-- From a double upwards, doubles are multiples of its last bit. -/
theorem IsStored.exists_multiple_of_le (hr : IsStored r) (hcanonical : IsCanonical m e) (hm : 0 < m)
    (hle : m * 2 ^ e ≤ r) : ∃ n : ℕ, r = n * 2 ^ e := by
  obtain ⟨m', e', hcanonical', -, habs⟩ := hr
  have hpos : (0 : ℚ) < m * 2 ^ e := by positivity
  rw [abs_of_pos (hpos.trans_le hle)] at habs
  have hexponent : e ≤ e' := by
    by_contra hlt
    have hcompare := compare_canonical hcanonical' hcanonical
    rw [Int.compare_eq_lt.mpr (not_le.mp hlt), Ordering.lt_then, eq_comm, compare_lt_iff_lt, ← habs]
      at hcompare
    exact absurd hle (not_le.mpr hcompare)
  obtain ⟨k, hk⟩ := Int.eq_ofNat_of_zero_le (sub_nonneg.mpr hexponent)
  obtain rfl : e' = k + e := by omega
  refine ⟨m' * 2 ^ k, ?_⟩
  rw [habs, zpow_add₀ two_ne_zero, zpow_natCast]
  push_cast
  ring

/-- They are at least as far apart. -/
theorem IsStored.add_unit_le (hq : IsStored q) (hr : IsStored r) (hcanonical : IsCanonical m e) (hm : 0 < m)
    (hle : m * 2 ^ e ≤ q) (hlt : q < r) : q + 2 ^ e ≤ r := by
  obtain ⟨i, rfl⟩ := hq.exists_multiple_of_le hcanonical hm hle
  obtain ⟨j, rfl⟩ := hr.exists_multiple_of_le hcanonical hm (hle.trans hlt.le)
  have hpower : (0 : ℚ) < 2 ^ e := by positivity
  have hnext : ((i + 1 : ℕ) : ℚ) ≤ j := by exact_mod_cast lt_of_mul_lt_mul_right hlt hpower.le
  calc (i : ℚ) * 2 ^ e + 2 ^ e = (i + 1 : ℕ) * 2 ^ e := by
        push_cast
        ring
    _ ≤ j * 2 ^ e := by gcongr

end Gaps

end InfoFlow.Double
