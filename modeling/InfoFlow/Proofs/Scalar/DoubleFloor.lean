import InfoFlow.Proofs.Scalar.DoubleValue

open Float.Model Float.Model.UnpackedFloat

namespace InfoFlow.Double

section Sums

/-- Some finite double stands for the number. -/
def IsStored (q : ℚ) : Prop := ∃ (m : ℕ) (e : ℤ), IsCanonical m e ∧ e ≤ 971 ∧ |q| = m * 2 ^ e

variable {q : ℚ} {m n : ℕ} {e f : ℤ} {x y : Float}

theorem isStored_zero : IsStored 0 := ⟨0, -1074, ⟨by norm_num, le_rfl, .inl rfl⟩, by norm_num, by simp⟩

theorem IsStored.neg (h : IsStored q) : IsStored (-q) := by
  unfold IsStored
  rwa [abs_neg]

theorem value_finite (s : Sign) (hm : 0 < m) :
    value (.finite s m e hm) = (s.apply m : ℤ) * 2 ^ e := by
  cases s with
  | positive => simp [value, Sign.apply]
  | negative => simp [value, Sign.apply]

theorem isStored_value (x : Float) : IsStored (value (unpacked x)) := by
  rcases hx : unpacked x with _ | _ | _ | ⟨s, m, e, hm⟩
  case finite =>
    refine ⟨m, e, isCanonical_of_unpacked hx, exponent_le_of_unpacked hx, ?_⟩
    have hpos : (0 : ℚ) ≤ m * 2 ^ e := by positivity
    cases s with
    | positive => exact abs_of_nonneg hpos
    | negative => exact (abs_neg _).trans (abs_of_nonneg hpos)
  all_goals exact isStored_zero

/-- A mantissa that has room for more bits is filled up with zeros, as far as the exponents reach. -/
theorem isStored_mul_zpow (hm : m < 2 ^ 53) (hlow : -1074 ≤ e) (hhigh : e ≤ 971) :
    IsStored (m * 2 ^ e) := by
  obtain rfl | hpos := m.eq_zero_or_pos
  · simpa using isStored_zero
  obtain ⟨hge, hup⟩ := (Nat.log2_eq_iff hpos.ne').mp rfl
  have hlog : m.log2 ≤ 52 := Nat.lt_succ_iff.mp ((Nat.log2_lt hpos.ne').mpr hm)
  obtain ⟨j, hj⟩ : ∃ j, j = min (52 - m.log2) (e + 1074).toNat := ⟨_, rfl⟩
  refine ⟨m * 2 ^ j, e - j, ⟨?_, by omega, ?_⟩, by omega, ?_⟩
  · calc m * 2 ^ j < 2 ^ (m.log2 + 1) * 2 ^ j := Nat.mul_lt_mul_of_pos_right hup (Nat.two_pow_pos j)
      _ = 2 ^ (m.log2 + 1 + j) := (pow_add _ _ _).symm
      _ ≤ 2 ^ 53 := Nat.pow_le_pow_right (by decide) (by omega)
  · by_cases hleast : (e + 1074).toNat ≤ 52 - m.log2
    · exact .inl (by omega)
    · right
      calc 2 ^ 52 = 2 ^ m.log2 * 2 ^ j := by rw [← pow_add, show m.log2 + j = 52 by omega]
        _ ≤ m * 2 ^ j := Nat.mul_le_mul_right _ hge
  · rw [abs_of_nonneg (by positivity), Nat.cast_mul, Nat.cast_pow, Nat.cast_ofNat, mul_assoc,
      ← zpow_natCast, ← zpow_add₀ two_ne_zero, add_sub_cancel]

/-- A number that can be stored is not rounded, however it is written. -/
theorem round_eq (h : IsCanonical m e) (hm : 0 < m) (hn : 0 < n)
    (hvalue : (n : ℚ) * 2 ^ f = m * 2 ^ e) (s : Sign) :
    UnpackedFloat.round Format.binary64 s n f = .finite s m e hm := by
  have htarget := h.targetExponent_eq hm
  unfold UnpackedFloat.round decreaseExponent
  rcases le_total f e with hle | hle
  · obtain ⟨k, hk⟩ := Int.eq_ofNat_of_zero_le (sub_nonneg.mpr hle)
    obtain rfl : f = e - k := by omega
    obtain rfl : n = m * 2 ^ k := by
      have hpower : (2 : ℚ) ^ e = 2 ^ k * 2 ^ (e - k : ℤ) := by
        rw [← zpow_natCast, ← zpow_add₀ two_ne_zero, add_sub_cancel]
      rw [hpower, ← mul_assoc] at hvalue
      exact_mod_cast mul_right_cancel₀ (by positivity) hvalue
    have hshift : (e - k - e).toNat = 0 := by omega
    simp only [totalExponent_mul hm, htarget, hshift, Nat.shiftLeft_zero, Nat.cast_zero, sub_zero]
    exact roundWithAccuracy_mul h hm k
  · obtain ⟨k, hk⟩ := Int.eq_ofNat_of_zero_le (sub_nonneg.mpr hle)
    obtain rfl : e = f - k := by omega
    obtain rfl : m = n * 2 ^ k := by
      have hpower : (2 : ℚ) ^ f = 2 ^ k * 2 ^ (f - k : ℤ) := by
        rw [← zpow_natCast, ← zpow_add₀ two_ne_zero, add_sub_cancel]
      rw [hpower, ← mul_assoc] at hvalue
      exact_mod_cast (mul_right_cancel₀ (by positivity) hvalue).symm
    rw [totalExponent_mul hn] at htarget
    have hshift : (f - (f - k)).toNat = k := by omega
    simp only [htarget, hshift, Nat.shiftLeft_eq]
    simpa using roundWithAccuracy_mul (s := s) h hm 0

/-- A number with sign is rounded without its sign. -/
theorem normalize_eq_round {i : ℤ} (hne : i ≠ 0) : ∃ s : Sign, i = s.apply i.natAbs ∧
    UnpackedFloat.normalize Format.binary64 i e .positive =
      UnpackedFloat.round Format.binary64 s i.natAbs e := by
  unfold UnpackedFloat.normalize
  rcases hne.lt_or_gt with hneg | hpos
  · refine ⟨.negative, by simp only [Sign.apply]; omega, ?_⟩
    rw [Int.compare_eq_lt.mpr hneg]
    simp only
    congr 1
    omega
  · refine ⟨.positive, by simp only [Sign.apply]; omega, ?_⟩
    rw [Int.compare_eq_gt.mpr hpos]
    simp only
    congr 1
    omega

theorem value_normalize {i : ℤ} (h : IsStored (i * 2 ^ e)) :
    (repack (UnpackedFloat.normalize Format.binary64 i e .positive)).isFinite = true ∧
      value (repack (UnpackedFloat.normalize Format.binary64 i e .positive)) = i * 2 ^ e := by
  obtain ⟨m, f, hcanonical, hf, hvalue⟩ := h
  obtain rfl | hne := eq_or_ne i 0
  · rw [show UnpackedFloat.normalize Format.binary64 0 e .positive = .zero .positive from rfl,
      repack_zero]
    exact ⟨rfl, by simp [value]⟩
  obtain ⟨s, hs, hnormalize⟩ := normalize_eq_round (e := e) hne
  rw [abs_mul, abs_of_nonneg (by positivity : (0 : ℚ) ≤ 2 ^ e), ← Int.cast_abs, Int.abs_eq_natAbs,
    Int.cast_natCast] at hvalue
  have hm : 0 < m := Nat.pos_of_ne_zero fun hzero => by
    rw [hzero, Nat.cast_zero, zero_mul] at hvalue
    simp [hne, zpow_ne_zero] at hvalue
  rw [hnormalize, round_eq hcanonical hm (Int.natAbs_pos.mpr hne) hvalue,
    repack_canonical hcanonical hm hf, value_finite]
  refine ⟨rfl, ?_⟩
  rw [hs]
  cases s with
  | positive => simpa [Sign.apply] using hvalue.symm
  | negative => simpa [Sign.apply] using hvalue.symm

/-- A mantissa with sign is written with more bits. -/
theorem apply_shiftLeft (s : Sign) (m : ℕ) {e f : ℤ} (hle : f ≤ e) :
    ((s.apply (m <<< (e - f).toNat : ℕ) : ℤ) : ℚ) * 2 ^ f = (s.apply m : ℤ) * 2 ^ e := by
  obtain ⟨k, hk⟩ := Int.eq_ofNat_of_zero_le (sub_nonneg.mpr hle)
  obtain rfl : e = f + k := by omega
  rw [add_sub_cancel_left, Int.toNat_natCast, Nat.shiftLeft_eq, zpow_add₀ two_ne_zero,
    zpow_natCast]
  cases s <;> simp only [Sign.apply] <;> push_cast <;> ring

/-- A sum is not rounded if a double stands for it. -/
theorem value_add (hx : (unpacked x).isFinite = true) (hy : (unpacked y).isFinite = true)
    (h : IsStored (value (unpacked x) + value (unpacked y))) :
    (unpacked (x + y)).isFinite = true ∧
      value (unpacked (x + y)) = value (unpacked x) + value (unpacked y) := by
  rw [unpacked_add]
  rcases hu : unpacked x with _ | _ | s | ⟨s, m₁, e₁, h₁⟩ <;>
    rcases hv : unpacked y with _ | _ | t | ⟨t, m₂, e₂, h₂⟩ <;>
      rw [hu] at hx h <;> rw [hv] at hy h <;> try cases hx <;> try cases hy
  case zero.zero =>
    simp only [UnpackedFloat.add]
    split <;> simp [repack_zero, value, UnpackedFloat.isFinite]
  case zero.finite =>
    simp only [UnpackedFloat.add]
    rw [repack_of_unpacked hv]
    exact ⟨rfl, (zero_add _).symm⟩
  case finite.zero =>
    simp only [UnpackedFloat.add]
    rw [repack_of_unpacked hu]
    exact ⟨rfl, (add_zero _).symm⟩
  case finite.finite =>
    rw [value_finite, value_finite] at h ⊢
    rw [← apply_shiftLeft s m₁ (min_le_left e₁ e₂), ← apply_shiftLeft t m₂ (min_le_right e₁ e₂), ← add_mul,
      ← Int.cast_add] at h ⊢
    exact value_normalize h

theorem unpackedSub_eq (u v : UnpackedFloat) :
    UnpackedFloat.sub Format.binary64 u v = UnpackedFloat.add Format.binary64 u v.neg := by
  have happly (s : Sign) (i : ℤ) : (-s).apply i = -s.apply i := by
    cases s
    · exact (neg_neg i).symm
    · rfl
  cases u <;> cases v <;> simp only [UnpackedFloat.sub, UnpackedFloat.add, UnpackedFloat.neg]
  rw [happly]
  rfl

/-- Taking away is adding the opposite. -/
theorem unpacked_sub_eq_add (x y : Float) : unpacked (x - y) = unpacked (x + -y) := by
  rw [unpacked_sub, unpacked_add, unpackedSub_eq, unpacked_neg]

theorem isFinite_neg (hx : (unpacked x).isFinite = true) : (unpacked (-x)).isFinite = true := by
  rw [unpacked_neg]
  cases hu : unpacked x with
  | notANumber => rw [hu] at hx; cases hx
  | infinity s => rw [hu] at hx; cases hx
  | zero s => rfl
  | finite s m e hm => rfl

/-- Neither is such a difference. -/
theorem value_sub (hx : (unpacked x).isFinite = true) (hy : (unpacked y).isFinite = true)
    (h : IsStored (value (unpacked x) - value (unpacked y))) :
    (unpacked (x - y)).isFinite = true ∧
      value (unpacked (x - y)) = value (unpacked x) - value (unpacked y) := by
  rw [sub_eq_add_neg, ← value_neg, ← unpacked_neg] at h ⊢
  rw [unpacked_sub_eq_add]
  exact value_add hx (isFinite_neg hy) h

end Sums

section Floor

variable {q : ℚ} {x y : Float}

/-- Doubles stand for all integers of 53 bits. -/
theorem isStored_intCast {i : ℤ} (h : i.natAbs ≤ 2 ^ 53) : IsStored i := by
  have hnat : IsStored (i.natAbs : ℚ) := by
    rcases h.lt_or_eq with hlt | heq
    · simpa using isStored_mul_zpow (e := 0) hlt (by norm_num) (by norm_num)
    · rw [heq]
      exact_mod_cast isStored_mul_zpow (m := 2 ^ 52) (e := 1) (by norm_num) (by norm_num) (by norm_num)
  rcases i.natAbs_eq with hi | hi
  · rw [hi, Int.cast_natCast]
    exact hnat
  · rw [hi, Int.cast_neg, Int.cast_natCast]
    exact hnat.neg

/-- Large doubles have no fraction. -/
theorem IsStored.exists_int (h : IsStored q) (hq : 2 ^ 52 ≤ |q|) : ∃ i : ℤ, q = i := by
  obtain ⟨m, e, hcanonical, _, hvalue⟩ := h
  have he : 0 ≤ e := by
    by_contra hneg
    have hpower : (2 : ℚ) ^ e ≤ 2 ^ (-1 : ℤ) := zpow_le_zpow_right₀ (by norm_num) (by omega)
    have hm : (m : ℚ) < 2 ^ 53 := by exact_mod_cast hcanonical.mantissa_lt
    have : |q| < 2 ^ 52 := by
      rw [hvalue]
      calc (m * 2 ^ e : ℚ) ≤ m * 2 ^ (-1 : ℤ) := by gcongr
        _ < 2 ^ 53 * 2 ^ (-1 : ℤ) := by gcongr
        _ = 2 ^ 52 := by norm_num
    exact this.not_ge hq
  obtain ⟨k, rfl⟩ := Int.eq_ofNat_of_zero_le he
  rcases abs_eq_abs.mp (hvalue.trans (abs_of_nonneg (by positivity)).symm) with hq | hq
  · exact ⟨m * 2 ^ k, by rw [hq]; push_cast; rfl⟩
  · exact ⟨-(m * 2 ^ k), by rw [hq]; push_cast; rfl⟩

/-- The fraction of a double is one. -/
theorem IsStored.sub_floor (h : IsStored q) (hq : 0 ≤ q) : IsStored (q - ⌊q⌋) := by
  obtain ⟨m, e, hcanonical, he, hvalue⟩ := h
  rw [abs_of_nonneg hq] at hvalue
  subst hvalue
  rw [← natCast_floor_eq_intCast_floor hq, floor_mul_zpow]
  obtain ⟨k, rfl | rfl⟩ := e.eq_nat_or_neg
  · simpa using isStored_zero
  · have hfraction : (m * 2 ^ (-(k : ℤ)) : ℚ) - (m / 2 ^ k : ℕ) = (m % 2 ^ k : ℕ) * 2 ^ (-(k : ℤ)) := by
      have hsplit : (m : ℚ) = 2 ^ k * (m / 2 ^ k : ℕ) + (m % 2 ^ k : ℕ) := by
        exact_mod_cast (Nat.div_add_mod m (2 ^ k)).symm
      nth_rewrite 1 [hsplit]
      rw [zpow_neg, zpow_natCast]
      field_simp
      ring
    simp only [Int.toNat_neg_natCast, neg_neg, Int.toNat_natCast, pow_zero, mul_one, hfraction]
    exact isStored_mul_zpow ((Nat.mod_le _ _).trans_lt hcanonical.mantissa_lt) hcanonical.exponent_ge he

theorem beq_iff_value (hx : (unpacked x).isFinite = true) (hy : (unpacked y).isFinite = true) :
    (x == y) = true ↔ value (unpacked x) = value (unpacked y) := by
  rw [beq_iff, compare_eq hx hy, Option.some_inj, compare_eq_iff_eq]

theorem value_toFloat {w : UInt64} (hw : w.toNat < 2 ^ 53) :
    (unpacked w.toFloat).isFinite = true ∧ value (unpacked w.toFloat) = w.toNat := by
  have hstored : IsStored ((w.toNat : ℤ) * 2 ^ (0 : ℤ)) := by
    simpa using isStored_intCast (i := w.toNat) (by simpa using hw.le)
  change (repack (UnpackedFloat.normalize Format.binary64 (w.toNat : ℤ) 0 .positive)).isFinite = true ∧
    value (repack (UnpackedFloat.normalize Format.binary64 (w.toNat : ℤ) 0 .positive)) = _
  simpa using value_normalize hstored

/-- The word that a double is truncated to is a double again, if it has few bits. -/
theorem value_toFloat_toUInt64 (hx : (unpacked x).isFinite = true)
    (hlt : value (unpacked x) < 2 ^ 52) :
    (unpacked x.toUInt64.toFloat).isFinite = true ∧
      value (unpacked x.toUInt64.toFloat) = ⌊value (unpacked x)⌋₊ := by
  have hfloor : ⌊value (unpacked x)⌋₊ < 2 ^ 52 := (Nat.floor_lt' (by norm_num)).mpr (by exact_mod_cast hlt)
  have hword : x.toUInt64.toNat = ⌊value (unpacked x)⌋₊ := by
    rw [toNat_toUInt64 hx]
    omega
  rw [← hword]
  exact value_toFloat (by omega)

theorem value_limit : value (unpacked 4503599627370496) = 2 ^ 52 ∧
    value (unpacked (-4503599627370496)) = -2 ^ 52 := by
  have hlimit : unpacked 4503599627370496 = .finite .positive (2 ^ 52) 0 (by decide) := rfl
  rw [unpacked_neg, value_neg, hlimit]
  norm_num [value]

theorem value_one : value (unpacked 1) = 1 := by
  have hone : unpacked 1 = .finite .positive (2 ^ 52) (-52) (by decide) := rfl
  norm_num [hone, value]

/-- Doubles with a fraction are small. -/
theorem exists_int_of_large (h : ¬ (0 < value (unpacked x) ∧ value (unpacked x) < 2 ^ 52))
    (h' : ¬ (value (unpacked x) < 0 ∧ -2 ^ 52 < value (unpacked x))) :
    ∃ i : ℤ, value (unpacked x) = i := by
  by_cases hzero : value (unpacked x) = 0
  · exact ⟨0, by rw [hzero, Int.cast_zero]⟩
  · refine (isStored_value x).exists_int (le_abs'.mpr ?_)
    rcases lt_or_gt_of_ne hzero with hneg | hpos
    · exact .inl (not_lt.mp fun hlt => h' ⟨hneg, hlt⟩)
    · exact .inr (not_lt.mp fun hlt => h ⟨hpos, hlt⟩)

/-- One more than the truncated word of a positive double that is not whole is its ceiling. -/
theorem value_toFloat_toUInt64_add_one (hx : (unpacked x).isFinite = true)
    (hpos : 0 < value (unpacked x)) (hlt : value (unpacked x) < 2 ^ 52)
    (hwhole : (⌊value (unpacked x)⌋ : ℚ) ≠ value (unpacked x)) :
    (unpacked (x.toUInt64.toFloat + 1)).isFinite = true ∧
      value (unpacked (x.toUInt64.toFloat + 1)) = ⌈value (unpacked x)⌉ := by
  obtain ⟨hfinite, hvalue⟩ := value_toFloat_toUInt64 hx hlt
  rw [natCast_floor_eq_intCast_floor hpos.le] at hvalue
  have hstored : IsStored (value (unpacked x.toUInt64.toFloat) + value (unpacked 1)) := by
    have hbound : ⌊value (unpacked x)⌋ < 2 ^ 52 := Int.floor_lt.mpr (by push_cast; exact hlt)
    have hnonneg : 0 ≤ ⌊value (unpacked x)⌋ := Int.floor_nonneg.mpr hpos.le
    rw [hvalue, value_one]
    exact_mod_cast isStored_intCast (i := ⌊value (unpacked x)⌋ + 1) (by omega)
  obtain ⟨hfinite', hsum⟩ := value_add hfinite rfl hstored
  have hceil : ⌈value (unpacked x)⌉ = ⌊value (unpacked x)⌋ + 1 := by
    rw [Int.ceil_eq_iff]
    push_cast
    have hle := (Int.floor_le (value (unpacked x))).lt_of_ne hwhole
    have hnext := (Int.lt_floor_add_one (value (unpacked x))).le
    exact ⟨by linarith, hnext⟩
  refine ⟨hfinite', ?_⟩
  rw [hsum, hvalue, value_one, hceil]
  push_cast
  rfl

/-- The whole double below a double is its floor. -/
theorem value_floor (hx : (unpacked x).isFinite = true) :
    (unpacked (Scalar.floor x)).isFinite = true ∧
      value (unpacked (Scalar.floor x)) = ⌊value (unpacked x)⌋ := by
  have hpositive : 0 < x ↔ 0 < value (unpacked x) := lt_iff_value rfl hx
  have hnegative : x < 0 ↔ value (unpacked x) < 0 := lt_iff_value hx rfl
  have hbelow : x < 4503599627370496 ↔ value (unpacked x) < 2 ^ 52 := by
    rw [lt_iff_value hx rfl, value_limit.1]
  have habove : -4503599627370496 < x ↔ -2 ^ 52 < value (unpacked x) := by
    rw [lt_iff_value rfl hx, value_limit.2]
  have hneg : value (unpacked (-x)) = -value (unpacked x) := by rw [unpacked_neg, value_neg]
  change (unpacked (Scalar.floorOfFloat x)).isFinite = true ∧
    value (unpacked (Scalar.floorOfFloat x)) = _
  unfold Scalar.floorOfFloat
  simp only [Bool.and_eq_true, decide_eq_true_eq, hpositive, hnegative, hbelow, habove]
  split
  · rename_i h
    obtain ⟨hfinite, hvalue⟩ := value_toFloat_toUInt64 hx h.2
    rw [hvalue]
    exact ⟨hfinite, natCast_floor_eq_intCast_floor h.1.le⟩
  · split
    · rename_i h
      obtain ⟨hfinite, hvalue⟩ := value_toFloat_toUInt64 (isFinite_neg hx) (by rw [hneg]; linarith)
      rw [hneg, natCast_floor_eq_intCast_floor (by linarith)] at hvalue
      split
      · rename_i hwhole
        rw [beq_iff_value hfinite (isFinite_neg hx), hneg, hvalue] at hwhole
        refine ⟨hx, ?_⟩
        rw [← neg_eq_iff_eq_neg.mpr hwhole, ← Int.cast_neg, Int.floor_intCast]
      · rename_i hwhole
        rw [beq_iff_value hfinite (isFinite_neg hx), hvalue, ← hneg] at hwhole
        obtain ⟨hfinite', hsum⟩ := value_toFloat_toUInt64_add_one (isFinite_neg hx)
          (by rw [hneg]; linarith) (by rw [hneg]; linarith) hwhole
        refine ⟨isFinite_neg hfinite', ?_⟩
        rw [unpacked_neg, value_neg, hsum, hneg, Int.ceil_neg]
        push_cast
        exact neg_neg _
    · rename_i hout hout'
      obtain ⟨i, hi⟩ := exists_int_of_large hout hout'
      refine ⟨hx, ?_⟩
      rw [hi, Int.floor_intCast]

theorem value_ceil (hx : (unpacked x).isFinite = true) :
    (unpacked (Scalar.ceil x)).isFinite = true ∧
      value (unpacked (Scalar.ceil x)) = ⌈value (unpacked x)⌉ := by
  obtain ⟨hfinite, hvalue⟩ := value_floor (isFinite_neg hx)
  change (unpacked (-Scalar.floor (-x))).isFinite = true ∧ value (unpacked (-Scalar.floor (-x))) = _
  refine ⟨isFinite_neg hfinite, ?_⟩
  rw [unpacked_neg, value_neg, hvalue, unpacked_neg, value_neg, Int.floor_neg]
  push_cast
  exact neg_neg _

/-- A number without its fraction. -/
def truncate (q : ℚ) : ℤ := if q < 0 then -⌊-q⌋₊ else ⌊q⌋₊

theorem truncate_intCast (i : ℤ) : truncate i = i := by
  unfold truncate
  obtain ⟨n, rfl | rfl⟩ := i.eq_nat_or_neg
  · rw [if_neg (by simp), Int.cast_natCast, Nat.floor_natCast]
  · obtain rfl | hpos := n.eq_zero_or_pos
    · simp
    · rw [if_pos (by simpa using hpos), Int.cast_neg, neg_neg, Int.cast_natCast, Nat.floor_natCast]

theorem truncate_of_neg (hq : q < 0) : truncate q = ⌈q⌉ := by
  rw [truncate, if_pos hq, Int.natCast_floor_eq_floor (neg_pos.mpr hq).le, Int.floor_neg, neg_neg]

theorem truncate_of_nonneg (hq : 0 ≤ q) : truncate q = ⌊q⌋ := by
  rw [truncate, if_neg hq.not_gt, Int.natCast_floor_eq_floor hq]

theorem IsStored.sub_truncate (h : IsStored q) : IsStored (q - truncate q) := by
  rcases lt_or_ge q 0 with hneg | hnonneg
  · have hfraction : q - truncate q = -(-q - ⌊-q⌋) := by
      rw [truncate_of_neg hneg, Int.floor_neg, Int.cast_neg]
      ring
    rw [hfraction]
    exact (h.neg.sub_floor (neg_pos.mpr hneg).le).neg
  · rw [truncate_of_nonneg hnonneg]
    exact h.sub_floor hnonneg

theorem value_trunc (hx : (unpacked x).isFinite = true) :
    (unpacked (Scalar.trunc x)).isFinite = true ∧
      value (unpacked (Scalar.trunc x)) = truncate (value (unpacked x)) := by
  have hneg : x < 0 ↔ value (unpacked x) < 0 := lt_iff_value hx rfl
  unfold Scalar.trunc
  by_cases h : x < 0
  · rw [if_pos h, truncate_of_neg (hneg.mp h)]
    exact value_ceil hx
  · rw [if_neg h, truncate_of_nonneg (not_lt.mp (mt hneg.mpr h))]
    exact value_floor hx

/-- A double is whole if it stands for an integer. -/
theorem isInteger_iff (hx : (unpacked x).isFinite = true) :
    Scalar.isInteger x = true ↔ ∃ i : ℤ, value (unpacked x) = i := by
  obtain ⟨htrunc, hvalue⟩ := value_trunc hx
  obtain ⟨hfract, hdifference⟩ :=
    value_sub hx htrunc (hvalue ▸ (isStored_value x).sub_truncate)
  unfold Scalar.isInteger Scalar.fract
  rw [beq_iff_value hfract rfl, hdifference, hvalue]
  change _ - _ = (0 : ℚ) ↔ _
  rw [sub_eq_zero]
  constructor
  · exact fun h => ⟨_, h⟩
  · rintro ⟨i, hi⟩
    rw [hi, truncate_intCast]

end Floor

end InfoFlow.Double
