import InfoFlow.Proofs.Scalar.Bounds

namespace InfoFlow

/-- Arithmetic in which the integers up to `2 ^ 53` are numbers, and the words of floors and ceilings tell
which of them are above or below a number. -/
class LawfulIntegers (α : Type) [Scalar α] : Prop where
  isFinite_ofInt {i : ℤ} : i.natAbs ≤ 2 ^ 53 → Scalar.isFinite (Scalar.ofInt i : α) = true
  isFinite_floor {x : α} : Scalar.isFinite x = true → Scalar.isFinite (Scalar.floor x) = true
  isFinite_ceil {x : α} : Scalar.isFinite x = true → Scalar.isFinite (Scalar.ceil x) = true
  toInt64_ofInt {i : ℤ} : i.natAbs ≤ 2 ^ 53 → (Scalar.toInt64 (Scalar.ofInt i : α)).toInt = i
  toInt64_mono {x y : α} : Scalar.isFinite x = true → Scalar.isFinite y = true → x ≤ y →
    (Scalar.toInt64 x).toInt ≤ (Scalar.toInt64 y).toInt
  le_ofInt_iff {x : α} {i : ℤ} : Scalar.isFinite x = true → i.natAbs ≤ 2 ^ 53 →
    (x ≤ Scalar.ofInt i ↔ (Scalar.toInt64 (Scalar.ceil x)).toInt ≤ i)
  ofInt_le_iff {x : α} {i : ℤ} : Scalar.isFinite x = true → i.natAbs ≤ 2 ^ 53 →
    (Scalar.ofInt i ≤ x ↔ i ≤ (Scalar.toInt64 (Scalar.floor x)).toInt)

/-- Arithmetic in which the integers between two numbers are counted without error, up to a number of
them that is at most `2 ^ 53`. -/
class LawfulCounts (α : Type) [Scalar α] : Prop where
  toUInt64_count {x y : α} {n : UInt64} : Scalar.IsBounded x → Scalar.IsBounded y →
    let count := (Scalar.toInt64 (Scalar.floor y)).toInt - (Scalar.toInt64 (Scalar.ceil x)).toInt + 1
    min count n.toNat ≤ 2 ^ 53 →
      (Scalar.toUInt64 (Scalar.min (Scalar.max (Scalar.floor y - Scalar.ceil x + 1) 0)
        (Scalar.ofUInt64 n))).toNat = min count.toNat n.toNat

/-- Arithmetic in which signed and unsigned words of a number are the same, where they can be. -/
class LawfulNaturals (α : Type) [Scalar α] : Prop where
  toUInt64_eq {x : α} : 0 ≤ x → x ≤ Scalar.ofNat (2 ^ 53) →
    ((Scalar.toUInt64 x).toNat : ℤ) = (Scalar.toInt64 x).toInt

namespace Scalar

variable {α : Type} [Scalar α] {x : α} {i j : ℤ}

theorem ofInt_natCast (n : ℕ) : (ofInt n : α) = ofNat n := by
  unfold ofInt
  rw [if_neg (by omega), Int.natAbs_natCast]

theorem IsBounded.le_ofInt (h : IsBounded x) : x ≤ ofInt (2 ^ 53 : ℕ) := by
  rw [ofInt_natCast]
  exact h.le

theorem IsBounded.ofInt_le (h : IsBounded x) : ofInt (-(2 ^ 53 : ℕ)) ≤ x := by
  unfold ofInt
  rw [if_pos (by decide)]
  exact h.ge

variable [LawfulOrder α] [LawfulFloor α] [LawfulIntegers α]

/-- An integer that is not above a number is not above its ceiling. -/
theorem le_toInt64_ceil (hx : isFinite x = true) (hi : i.natAbs ≤ 2 ^ 53) (h : ofInt i ≤ x) :
    i ≤ (toInt64 (ceil x)).toInt := by
  have hmono := LawfulIntegers.toInt64_mono (LawfulIntegers.isFinite_ofInt hi)
    (LawfulIntegers.isFinite_ceil hx) (LawfulOrder.le_trans h (LawfulFloor.le_ceil hx))
  rwa [LawfulIntegers.toInt64_ofInt hi] at hmono

/-- One that is not below it is not below its floor. -/
theorem toInt64_floor_le (hx : isFinite x = true) (hi : i.natAbs ≤ 2 ^ 53) (h : x ≤ ofInt i) :
    (toInt64 (floor x)).toInt ≤ i := by
  have hmono := LawfulIntegers.toInt64_mono (LawfulIntegers.isFinite_floor hx)
    (LawfulIntegers.isFinite_ofInt hi) (LawfulOrder.le_trans (LawfulFloor.floor_le hx) h)
  rwa [LawfulIntegers.toInt64_ofInt hi] at hmono

/-- The integers themselves are not changed by ceilings. -/
theorem toInt64_ceil_ofInt (hi : i.natAbs ≤ 2 ^ 53) : (toInt64 (ceil (ofInt i : α))).toInt = i := by
  have hfinite : isFinite (ofInt i : α) = true := LawfulIntegers.isFinite_ofInt hi
  have hself := le_refl (isFinite_iff.mp hfinite).1
  exact Int.le_antisymm ((LawfulIntegers.le_ofInt_iff hfinite hi).mp hself)
    (le_toInt64_ceil hfinite hi hself)

/-- Nor by floors. -/
theorem toInt64_floor_ofInt (hi : i.natAbs ≤ 2 ^ 53) : (toInt64 (floor (ofInt i : α))).toInt = i := by
  have hfinite : isFinite (ofInt i : α) = true := LawfulIntegers.isFinite_ofInt hi
  have hself := le_refl (isFinite_iff.mp hfinite).1
  exact Int.le_antisymm (toInt64_floor_le hfinite hi hself)
    ((LawfulIntegers.ofInt_le_iff hfinite hi).mp hself)

theorem ofInt_le_ofInt (hi : i.natAbs ≤ 2 ^ 53) (hj : j.natAbs ≤ 2 ^ 53) :
    (ofInt i : α) ≤ ofInt j ↔ i ≤ j := by
  rw [LawfulIntegers.le_ofInt_iff (LawfulIntegers.isFinite_ofInt hi) hj, toInt64_ceil_ofInt hi]

theorem isBounded_ofInt (hi : i.natAbs ≤ 2 ^ 53) : IsBounded (ofInt i : α) := by
  have hlow : (-ofNat (2 ^ 53) : α) = ofInt (-(2 ^ 53 : ℕ)) := by
    unfold ofInt
    rw [if_pos (by decide)]
    rfl
  constructor
  · rw [hlow]
    exact (ofInt_le_ofInt (by decide) hi).mpr (by omega)
  · rw [← ofInt_natCast]
    exact (ofInt_le_ofInt hi (by decide)).mpr (by omega)

theorem toUInt64_ofInt [LawfulNaturals α] (hpos : 0 ≤ i) (hi : i.natAbs ≤ 2 ^ 53) :
    ((toUInt64 (ofInt i : α)).toNat : ℤ) = i := by
  have hzero : (0 : α) = ofInt 0 := (ofInt_natCast 0).symm
  have hlimit : (ofNat (2 ^ 53) : α) = ofInt (2 ^ 53 : ℕ) := (ofInt_natCast _).symm
  rw [LawfulNaturals.toUInt64_eq, LawfulIntegers.toInt64_ofInt hi]
  · rw [hzero]
    exact (ofInt_le_ofInt (by decide) hi).mpr hpos
  · rw [hlimit]
    exact (ofInt_le_ofInt hi (by decide)).mpr (by omega)

variable [LawfulBounds α]

/-- Bounded numbers have bounded ceilings. -/
theorem IsBounded.natAbs_ceil_le (h : IsBounded x) : (toInt64 (ceil x)).toInt.natAbs ≤ 2 ^ 53 := by
  have hhigh := (LawfulIntegers.le_ofInt_iff h.isFinite (by decide)).mp h.le_ofInt
  have hlow := le_toInt64_ceil h.isFinite (by decide) h.ofInt_le
  omega

theorem IsBounded.natAbs_floor_le (h : IsBounded x) : (toInt64 (floor x)).toInt.natAbs ≤ 2 ^ 53 := by
  have hlow := (LawfulIntegers.ofInt_le_iff h.isFinite (by decide)).mp h.ofInt_le
  have hhigh := toInt64_floor_le h.isFinite (by decide) h.le_ofInt
  omega

end Scalar

namespace Exact

instance : LawfulIntegers Exact where
  isFinite_ofInt {i} _ := isFinite_iff.mpr ⟨i, ofInt_eq i⟩
  isFinite_floor {x} h := by
    obtain ⟨x, rfl⟩ := isFinite_iff.mp h
    exact isFinite_iff.mpr ⟨_, floor_real x⟩
  isFinite_ceil {x} h := by
    obtain ⟨x, rfl⟩ := isFinite_iff.mp h
    exact isFinite_iff.mpr ⟨_, ceil_real x⟩
  toInt64_ofInt {i} hi := by
    rw [toInt_toInt64, ofInt_eq]
    exact toWord_intCast (by omega) (by omega)
  toInt64_mono {x y} hx hy h := by
    obtain ⟨x, rfl⟩ := isFinite_iff.mp hx
    obtain ⟨y, rfl⟩ := isFinite_iff.mp hy
    rw [toInt_toInt64, toInt_toInt64]
    exact toWord_mono (real_le.mp h)
  le_ofInt_iff {x i} hx hi := by
    obtain ⟨x, rfl⟩ := isFinite_iff.mp hx
    rw [ofInt_eq, real_le, toInt_toInt64, ceil_real, ← Int.ceil_le]
    simp only [toWord, truncate_intCast]
    omega
  ofInt_le_iff {x i} hx hi := by
    obtain ⟨x, rfl⟩ := isFinite_iff.mp hx
    rw [ofInt_eq, real_le, toInt_toInt64, floor_real, ← Int.le_floor]
    simp only [toWord, truncate_intCast]
    omega

theorem min_real (x y : ℝ) : Scalar.min (real x) (real y) = real (min x y) := by
  unfold Scalar.min
  simp only [isNaN_iff, reduceCtorEq, if_false, real_lt]
  split
  · rename_i hlt
    rw [min_eq_right hlt.le]
  · rename_i hle
    rw [min_eq_left (not_lt.mp hle)]

instance : LawfulCounts Exact where
  toUInt64_count {x y n} hx hy := by
    obtain ⟨x, rfl, hxl, hxh⟩ := real_of_isBounded hx
    obtain ⟨y, rfl, hyl, hyh⟩ := real_of_isBounded hy
    have hceil : -2 ^ 53 ≤ ⌈x⌉ ∧ ⌈x⌉ ≤ 2 ^ 53 :=
      ⟨by exact_mod_cast hxl.trans (Int.le_ceil x), Int.ceil_le.mpr (by exact_mod_cast hxh)⟩
    have hfloor : -2 ^ 53 ≤ ⌊y⌋ ∧ ⌊y⌋ ≤ 2 ^ 53 :=
      ⟨Int.le_floor.mpr (by exact_mod_cast hyl), by exact_mod_cast (Int.floor_le y).trans hyh⟩
    have hn := n.toNat_lt
    intro count _
    have hcount : count = ⌊y⌋ - ⌈x⌉ + 1 := by
      simp only [count, toInt_toInt64, floor_real, ceil_real, toWord, truncate_intCast]
      omega
    have hmin : (min (max ((⌊y⌋ : ℝ) - ⌈x⌉ + 1) 0) (n.toNat : ℤ)) =
        ((min (max (⌊y⌋ - ⌈x⌉ + 1) 0) n.toNat : ℤ) : ℝ) := by
      push_cast
      rfl
    rw [floor_real, ceil_real, real_sub, one_eq, real_add, zero_eq, max_real, ofUInt64_eq, min_real, hmin,
      hcount, ← Int.ofNat_inj, toNat_toUInt64, toWord_intCast (by omega) (by omega)]
    omega

instance : LawfulNaturals Exact where
  toUInt64_eq {x} hpos hle := by
    have hlimit : (Scalar.ofNat (2 ^ 53) : Exact) = real (2 ^ 53 : ℤ) := by
      rw [ofNat_eq]
      norm_num
    obtain ⟨x, rfl⟩ := isFinite_iff.mp (Scalar.isFinite_of_between hpos hle
      (LawfulBounds.isFinite_ofNat (Nat.zero_le _)) (LawfulBounds.isFinite_ofNat le_rfl))
    rw [zero_le_real] at hpos
    rw [hlimit, real_le] at hle
    have hlow := truncate_mono hpos
    have hhigh := truncate_mono hle
    rw [← Int.cast_zero, truncate_intCast] at hlow
    rw [truncate_intCast] at hhigh
    rw [toNat_toUInt64, toInt_toInt64]
    simp only [toWord]
    omega

end Exact

namespace Double

open Float.Model Float.Model.UnpackedFloat

variable {x y : Float}

theorem value_ofInt_of_le {i : ℤ} (hi : i.natAbs ≤ 2 ^ 53) :
    (unpacked (Scalar.ofInt i)).isFinite = true ∧ value (unpacked (Scalar.ofInt i)) = i := by
  rcases hi.lt_or_eq with hlt | heq
  · exact value_ofInt (isExact_of_lt hlt)
  · exact value_ofInt (heq ▸ isExact_gapless)

/-- The signed word of a ceiling. -/
theorem toInt_toInt64_ceil (hx : (unpacked x).isFinite = true) :
    (Scalar.toInt64 (Scalar.ceil x)).toInt = max (-2 ^ 63) (min (2 ^ 63 - 1) ⌈value (unpacked x)⌉) := by
  obtain ⟨hfinite, hvalue⟩ := value_ceil hx
  rw [toInt_toInt64 hfinite, hvalue, truncate_intCast]

theorem toInt_toInt64_floor (hx : (unpacked x).isFinite = true) :
    (Scalar.toInt64 (Scalar.floor x)).toInt = max (-2 ^ 63) (min (2 ^ 63 - 1) ⌊value (unpacked x)⌋) := by
  obtain ⟨hfinite, hvalue⟩ := value_floor hx
  rw [toInt_toInt64 hfinite, hvalue, truncate_intCast]

instance : LawfulIntegers Float where
  isFinite_ofInt hi := isFinite_iff.mpr (value_ofInt_of_le hi).1
  isFinite_floor h := isFinite_iff.mpr (value_floor (isFinite_iff.mp h)).1
  isFinite_ceil h := isFinite_iff.mpr (value_ceil (isFinite_iff.mp h)).1
  toInt64_ofInt {i} hi := by
    obtain ⟨hfinite, hvalue⟩ := value_ofInt_of_le hi
    rw [toInt_toInt64 hfinite, hvalue, truncate_intCast]
    omega
  toInt64_mono {x y} hx hy h := by
    rw [isFinite_iff] at hx hy
    rw [le_iff_value hx hy] at h
    have htruncate := truncate_mono h
    rw [toInt_toInt64 hx, toInt_toInt64 hy]
    omega
  le_ofInt_iff {x i} hx hi := by
    rw [isFinite_iff] at hx
    obtain ⟨hfinite, hvalue⟩ := value_ofInt_of_le hi
    rw [le_iff_value hx hfinite, hvalue, toInt_toInt64_ceil hx, ← Int.ceil_le]
    omega
  ofInt_le_iff {x i} hx hi := by
    rw [isFinite_iff] at hx
    obtain ⟨hfinite, hvalue⟩ := value_ofInt_of_le hi
    rw [le_iff_value hfinite hx, hvalue, toInt_toInt64_floor hx, ← Int.le_floor]
    omega

theorem value_max (hx : (unpacked x).isFinite = true) (hy : (unpacked y).isFinite = true) :
    (unpacked (Scalar.max x y)).isFinite = true ∧
      value (unpacked (Scalar.max x y)) = max (value (unpacked x)) (value (unpacked y)) := by
  unfold Scalar.max
  rw [if_neg (by simp [isNaN_of_isFinite hx])]
  split
  · rename_i hlt
    exact ⟨hy, (max_eq_right ((lt_iff_value hx hy).mp hlt).le).symm⟩
  · rename_i hle
    exact ⟨hx, (max_eq_left (not_lt.mp (mt (lt_iff_value hx hy).mpr hle))).symm⟩

theorem value_min (hx : (unpacked x).isFinite = true) (hy : (unpacked y).isFinite = true) :
    (unpacked (Scalar.min x y)).isFinite = true ∧
      value (unpacked (Scalar.min x y)) = min (value (unpacked x)) (value (unpacked y)) := by
  unfold Scalar.min
  rw [if_neg (by simp [isNaN_of_isFinite hx])]
  split
  · rename_i hlt
    exact ⟨hy, (min_eq_right ((lt_iff_value hy hx).mp hlt).le).symm⟩
  · rename_i hle
    exact ⟨hx, (min_eq_left (not_lt.mp (mt (lt_iff_value hy hx).mpr hle))).symm⟩

/-- The number of integers from one to another, as it is computed: it is rounded only beyond `2 ^ 53`. -/
theorem value_count {i j : ℤ} (hx : (unpacked x).isFinite = true) (hy : (unpacked y).isFinite = true)
    (hi : value (unpacked x) = i) (hj : value (unpacked y) = j) (hbound : (j - i).natAbs ≤ 2 ^ 54) :
    (unpacked (y - x + 1)).isFinite = true ∧
      (j - i + 1 ≤ 2 ^ 53 → max (value (unpacked (y - x + 1))) 0 = (max (j - i + 1) 0 : ℤ)) ∧
      (2 ^ 53 < j - i + 1 → 2 ^ 53 ≤ value (unpacked (y - x + 1))) := by
  have hlarge : |((j - i : ℤ) : ℚ)| ≤ 2 ^ (54 : ℤ) := by
    rw [← Int.cast_abs, Int.abs_eq_natAbs]
    exact_mod_cast hbound
  have hdifference := rounds_sub hy hx
  rw [hi, hj, ← Int.cast_sub] at hdifference
  have hfinite := hdifference.isFinite (isStored_two_pow (by norm_num) (by norm_num)) hlarge
  have hsum := rounds_add hfinite (y := 1) rfl
  rw [hdifference.value_eq hfinite, value_one] at hsum
  have hrounded := abs_rounded_le (isStored_two_pow (by norm_num) (by norm_num)) hlarge
  have hfinite' := hsum.isFinite (r := 2 ^ (55 : ℤ)) (isStored_two_pow (by norm_num) (by norm_num)) <| by
    rw [abs_le] at hrounded ⊢
    norm_num at hrounded ⊢
    constructor <;> linarith
  rw [hsum.value_eq hfinite']
  have hinteger {i : ℤ} (hi : i.natAbs ≤ 2 ^ 53) : rounded i = i := rounded_of_isStored (isStored_intCast hi)
  refine ⟨hfinite', fun hle => ?_, fun hlt => ?_⟩
  · rcases Int.lt_or_le (j - i) 0 with hneg | hnonneg
    · have hbelow : rounded (j - i : ℤ) ≤ (-1 : ℤ) := by
        rw [← hinteger (i := -1) (by decide)]
        exact rounded_mono (by exact_mod_cast (by omega : j - i ≤ -1))
      have hzero : rounded (rounded (j - i : ℤ) + 1) ≤ (0 : ℤ) := by
        rw [← hinteger (i := 0) (by decide)]
        refine rounded_mono ?_
        push_cast at hbelow ⊢
        linarith
      rw [max_eq_right (by exact_mod_cast hzero), max_eq_right (by omega)]
      simp
    · rw [hinteger (i := j - i) (by omega), ← Int.cast_one, ← Int.cast_add,
        hinteger (i := j - i + 1) (by omega)]
      push_cast
      rfl
  · have habove : ((2 ^ 53 : ℤ) : ℚ) ≤ rounded (j - i : ℤ) := by
      rw [← hinteger (i := 2 ^ 53) (by norm_num)]
      exact rounded_mono (by exact_mod_cast (by omega : 2 ^ 53 ≤ j - i))
    have hmore : ((2 ^ 53 : ℤ) : ℚ) ≤ rounded (rounded (j - i : ℤ) + 1) := by
      rw [← hinteger (i := 2 ^ 53) (by norm_num)]
      exact rounded_mono (by linarith)
    exact_mod_cast hmore

instance : LawfulCounts Float where
  toUInt64_count {x y n} hx hy := by
    obtain ⟨hx, hxl, hxh⟩ := value_of_isBounded hx
    obtain ⟨hy, hyl, hyh⟩ := value_of_isBounded hy
    have hceil : -2 ^ 53 ≤ ⌈value (unpacked x)⌉ ∧ ⌈value (unpacked x)⌉ ≤ 2 ^ 53 :=
      ⟨by exact_mod_cast hxl.trans (Int.le_ceil _), Int.ceil_le.mpr (by exact_mod_cast hxh)⟩
    have hfloor : -2 ^ 53 ≤ ⌊value (unpacked y)⌋ ∧ ⌊value (unpacked y)⌋ ≤ 2 ^ 53 :=
      ⟨Int.le_floor.mpr (by exact_mod_cast hyl), by exact_mod_cast (Int.floor_le _).trans hyh⟩
    obtain ⟨hfinitex, hvaluex⟩ := value_ceil hx
    obtain ⟨hfinitey, hvaluey⟩ := value_floor hy
    obtain ⟨hfinite, hexact, hlarge⟩ := value_count hfinitex hfinitey hvaluex hvaluey (by omega)
    obtain ⟨hfinitemax, hvaluemax⟩ := value_max hfinite (y := 0) rfl
    have hn := n.toNat_lt
    have hfiniten : (unpacked (Scalar.ofUInt64 n)).isFinite = true := isFinite_ofNat (by omega)
    obtain ⟨hfinitemin, hvaluemin⟩ := value_min hfinitemax hfiniten
    have hvaluen : value (unpacked (Scalar.ofUInt64 n)) = rounded n.toNat :=
      (rounds_ofNat n.toNat).value_eq hfiniten
    intro count hcount
    have htotal : count = ⌊value (unpacked y)⌋ - ⌈value (unpacked x)⌉ + 1 := by
      simp only [count]
      rw [toInt_toInt64_floor hy, toInt_toInt64_ceil hx]
      omega
    rw [← htotal] at hexact hlarge
    have hinteger {i : ℤ} (hi : i.natAbs ≤ 2 ^ 53) : rounded i = i := rounded_of_isStored (isStored_intCast hi)
    have hvalue : value (unpacked (Scalar.min (Scalar.max (Scalar.floor y - Scalar.ceil x + 1) 0)
        (Scalar.ofUInt64 n))) = (min count.toNat n.toNat : ℕ) := by
      rw [hvaluemin, hvaluemax, hvaluen]
      change min (max _ 0) _ = _
      rcases Nat.lt_or_ge (2 ^ 53) n.toNat with hmany | hfew
      · have hrounded : ((2 ^ 53 : ℤ) : ℚ) ≤ rounded n.toNat := by
          rw [← hinteger (i := 2 ^ 53) (by norm_num)]
          exact rounded_mono (by exact_mod_cast hmany.le)
        have hle : ((max count 0 : ℤ) : ℚ) ≤ (2 ^ 53 : ℤ) := by exact_mod_cast (by omega)
        rw [hexact (by omega), min_eq_left (hle.trans hrounded), Nat.min_eq_left (by omega)]
        exact_mod_cast (by omega : max count 0 = count.toNat)
      · rw [← Int.cast_natCast n.toNat, hinteger (by omega)]
        by_cases hsmall : count ≤ 2 ^ 53
        · rw [hexact hsmall]
          exact_mod_cast (by omega : min (max count 0) n.toNat = (min count.toNat n.toNat : ℕ))
        · have hle : ((n.toNat : ℤ) : ℚ) ≤ 2 ^ 53 := by exact_mod_cast hfew
          rw [min_eq_right ((hle.trans (hlarge (by omega))).trans (le_max_left _ _)),
            Nat.min_eq_right (by omega)]
          norm_cast
    change (Float.toUInt64 _).toNat = _
    rw [toNat_toUInt64 hfinitemin, hvalue, Nat.floor_natCast]
    omega

instance : LawfulNaturals Float where
  toUInt64_eq {x} hpos hle := by
    have hx := isFinite_iff.mp (Scalar.isFinite_of_between hpos hle
      (LawfulBounds.isFinite_ofNat (Nat.zero_le _)) (LawfulBounds.isFinite_ofNat le_rfl))
    obtain ⟨hlimit, hvalue⟩ := value_ofNat isExact_gapless
    have hnonneg : 0 ≤ value (unpacked x) := (le_iff_value rfl hx).mp hpos
    rw [le_iff_value hx hlimit, hvalue] at hle
    have hfloor : ⌊value (unpacked x)⌋₊ ≤ 2 ^ 53 := Nat.floor_le_of_le hle
    rw [toInt_toInt64 hx, truncate, if_neg (not_lt.mpr hnonneg)]
    change ((Float.toUInt64 x).toNat : ℤ) = _
    rw [toNat_toUInt64 hx]
    omega

end Double

end InfoFlow
