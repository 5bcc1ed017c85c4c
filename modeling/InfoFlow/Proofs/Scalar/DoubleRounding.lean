import InfoFlow.Proofs.Scalar.Floor
import Mathlib.Data.Int.Log

open Float.Model Float.Model.UnpackedFloat

namespace InfoFlow.Double

section Nearest

/-- The nearest whole number, the even one if there are two of them. -/
def nearestEven (q : ℚ) : ℕ :=
  if q < ⌊q⌋₊ + 1 / 2 then ⌊q⌋₊
  else if q = ⌊q⌋₊ + 1 / 2 then ⌊q⌋₊ + ⌊q⌋₊ % 2
  else ⌊q⌋₊ + 1

variable {q r : ℚ}

theorem floor_le_nearestEven (q : ℚ) : ⌊q⌋₊ ≤ nearestEven q := by
  unfold nearestEven
  split_ifs <;> omega

theorem nearestEven_le_floor_add_one (q : ℚ) : nearestEven q ≤ ⌊q⌋₊ + 1 := by
  unfold nearestEven
  split_ifs <;> omega

@[simp]
theorem nearestEven_natCast (n : ℕ) : nearestEven n = n := by
  simp [nearestEven]

theorem nearestEven_mono (h : q ≤ r) : nearestEven q ≤ nearestEven r := by
  rcases (Nat.floor_mono h).lt_or_eq with hlt | heq
  · exact (nearestEven_le_floor_add_one q).trans (hlt.trans_le (floor_le_nearestEven r))
  · unfold nearestEven
    rw [heq]
    split_ifs <;> first | omega | grind

theorem le_nearestEven {n : ℕ} (h : n ≤ q) : n ≤ nearestEven q := by
  simpa using nearestEven_mono h

theorem nearestEven_le {n : ℕ} (h : q ≤ n) : nearestEven q ≤ n := by
  simpa using nearestEven_mono h

end Nearest

section Residues

/-- A mantissa and its residual bits stand for a number: the mantissa is what the number is truncated to,
the round bit says whether a half or more is cut off, and the sticky bit whether anything but a half. -/
structure StandsFor (em : ExtendedMantissa) (q : ℚ) : Prop where
  mantissa_le : em.mantissa ≤ q
  lt_succ : q < em.mantissa + 1
  roundBit_iff : em.roundBit = true ↔ em.mantissa + 1 / 2 ≤ q
  stickyBit_iff : em.stickyBit = true ↔ q ≠ em.mantissa ∧ q ≠ em.mantissa + 1 / 2

variable {em : ExtendedMantissa} {q : ℚ}

theorem StandsFor.floor_eq (h : StandsFor em q) : ⌊q⌋₊ = em.mantissa := by
  rw [Nat.floor_eq_iff ((Nat.cast_nonneg _).trans h.mantissa_le)]
  exact ⟨h.mantissa_le, h.lt_succ⟩

/-- Residual bits are enough to round to the nearest mantissa. -/
theorem StandsFor.roundedMantissa_eq (h : StandsFor em q) : em.roundedMantissa = nearestEven q := by
  have hfloor := h.floor_eq
  obtain ⟨-, -, hround, hsticky⟩ := h
  unfold nearestEven
  rw [hfloor]
  rcases em with ⟨m, _ | _, _ | _⟩ <;>
    simp only [ExtendedMantissa.roundedMantissa, ExtendedMantissa.accuracy,
      Accuracy.roundToNearestEven, Bool.false_eq_true, false_iff, true_iff, not_and_or,
      not_not, not_le] at hround hsticky ⊢
  · rw [if_pos hround]
  · rw [if_pos hround]
  · rw [if_neg (not_lt.mpr hround), if_pos (hsticky.resolve_left (by linarith))]
  · rw [if_neg (not_lt.mpr hround), if_neg hsticky.2]

/-- The last bit of a mantissa becomes the round bit when it is cut off. -/
theorem StandsFor.shiftRightOne (h : StandsFor em q) : StandsFor em.shiftRightOne (q / 2) := by
  obtain ⟨hle, hlt, hround, hsticky⟩ := h
  have hdiv : (em.mantissa : ℚ) = 2 * (em.mantissa / 2 : ℕ) + (em.mantissa % 2 : ℕ) := by
    exact_mod_cast (Nat.div_add_mod em.mantissa 2).symm
  have hsome : (em.roundBit || em.stickyBit) = true ↔ q ≠ em.mantissa := by
    rw [Bool.or_eq_true, hround, hsticky]
    grind
  rcases Nat.mod_two_eq_zero_or_one em.mantissa with heven | hodd
  · rw [heven] at hdiv
    constructor <;> simp only [ExtendedMantissa.shiftRightOne, heven, hsome] <;> grind
  · rw [hodd] at hdiv
    constructor <;> simp only [ExtendedMantissa.shiftRightOne, hodd, hsome] <;> grind

theorem StandsFor.shiftRight (h : StandsFor em q) (k : ℕ) : StandsFor (em >>> k) (q / 2 ^ k) := by
  change StandsFor (Nat.repeat ExtendedMantissa.shiftRightOne k em) _
  induction k with
  | zero => simpa [Nat.repeat] using h
  | succ k ih =>
    rw [pow_succ, ← div_div]
    exact ih.shiftRightOne

theorem mantissa_ofMantissaAndAccuracy (m : ℕ) (acc : Accuracy) :
    (ExtendedMantissa.ofMantissaAndAccuracy m acc).mantissa = m := by
  rcases acc with _ | _ | _ | _ <;> rfl

theorem standsFor_exact (m : ℕ) :
    StandsFor (ExtendedMantissa.ofMantissaAndAccuracy m .exact) m := by
  constructor <;> simp [ExtendedMantissa.ofMantissaAndAccuracy]

/-- The accuracy of a quotient is that of what the division leaves. -/
theorem standsFor_fraction (m : ℕ) {num den : ℕ} (h : num < den) :
    StandsFor (ExtendedMantissa.ofMantissaAndAccuracy m (accuracyOfFraction num den))
      (m + num / den) := by
  have hden : (0 : ℚ) < den := by exact_mod_cast h.trans_le' (Nat.zero_le _)
  have hfraction : (num / den : ℚ) < 1 := (div_lt_one hden).mpr (by exact_mod_cast h)
  have hnonneg : (0 : ℚ) ≤ num / den := by positivity
  unfold accuracyOfFraction
  split
  · rename_i hzero
    simpa [hzero] using standsFor_exact m
  · rename_i hne
    have hpos : (0 : ℚ) < num / den := by positivity
    rcases lt_trichotomy (2 * num) den with hlt | heq | hgt
    · have hhalf : (num / den : ℚ) < 1 / 2 := by
        rw [div_lt_div_iff₀ hden two_pos]
        exact_mod_cast (by omega : num * 2 < 1 * den)
      rw [Nat.compare_eq_lt.mpr hlt]
      constructor <;> simp only [ExtendedMantissa.ofMantissaAndAccuracy] <;> grind
    · have hhalf : (num / den : ℚ) = 1 / 2 := by
        rw [div_eq_div_iff hden.ne' two_ne_zero]
        exact_mod_cast (by omega : num * 2 = 1 * den)
      rw [Nat.compare_eq_eq.mpr heq]
      constructor <;> simp only [ExtendedMantissa.ofMantissaAndAccuracy] <;> grind
    · have hhalf : (1 / 2 : ℚ) < num / den := by
        rw [div_lt_div_iff₀ two_pos hden]
        exact_mod_cast (by omega : 1 * den < num * 2)
      rw [Nat.compare_eq_gt.mpr hgt]
      constructor <;> simp only [ExtendedMantissa.ofMantissaAndAccuracy] <;> grind

end Residues

section Magnitude

/-- The exponent of the last bit that a double keeps of a positive number. -/
def unitExponent (q : ℚ) : ℤ := max (Int.log 2 q - 52) (-1074)

/-- What rounding makes of a number that is not negative, if exponents may be as large as needed. -/
def magnitude (q : ℚ) : ℚ := nearestEven (q / 2 ^ unitExponent q) * 2 ^ unitExponent q

variable {q r : ℚ} {m : ℕ} {e : ℤ}

theorem targetExponent_eq (t : ℤ) : Format.binary64.targetExponent t = max (t - 53) (-1074) := rfl

theorem log_eq_iff (hq : 0 < q) (k : ℤ) : Int.log 2 q = k ↔ 2 ^ k ≤ q ∧ q < 2 ^ (k + 1) := by
  have hle := Int.zpow_le_iff_le_log (b := 2) (by norm_num) (x := k) hq
  have hlt := Int.lt_zpow_iff_log_lt (b := 2) (by norm_num) (x := k + 1) hq
  rw [Nat.cast_ofNat] at hle hlt
  rw [hle, hlt]
  omega

/-- The first bit of a number is that of the mantissa that it is truncated to. -/
theorem log_eq (hm : 0 < m) (hle : m ≤ q / 2 ^ e) (hlt : q / 2 ^ e < m + 1) :
    Int.log 2 q = m.log2 + e := by
  have hpower : (0 : ℚ) < 2 ^ e := by positivity
  have hpos : (0 : ℚ) < m := by exact_mod_cast hm
  rw [le_div_iff₀ hpower] at hle
  rw [div_lt_iff₀ hpower] at hlt
  obtain ⟨hlow, hhigh⟩ := (Nat.log2_eq_iff hm.ne').mp rfl
  have hq : 0 < q := (by positivity : (0 : ℚ) < m * 2 ^ e).trans_le hle
  rw [log_eq_iff hq]
  constructor
  · calc (2 : ℚ) ^ (m.log2 + e) = (2 ^ m.log2 : ℕ) * 2 ^ e := by
          rw [zpow_add₀ two_ne_zero, zpow_natCast, Nat.cast_pow, Nat.cast_ofNat]
      _ ≤ m * 2 ^ e := by
          have : ((2 ^ m.log2 : ℕ) : ℚ) ≤ m := by exact_mod_cast hlow
          gcongr
      _ ≤ q := hle
  · calc q < (m + 1) * 2 ^ e := hlt
      _ ≤ (2 ^ (m.log2 + 1) : ℕ) * 2 ^ e := by
          have : (m + 1 : ℚ) ≤ (2 ^ (m.log2 + 1) : ℕ) := by exact_mod_cast hhigh
          gcongr
      _ = 2 ^ (m.log2 + e + 1) := by
          rw [Nat.cast_pow, Nat.cast_ofNat, ← zpow_natCast, ← zpow_add₀ two_ne_zero]
          congr 1
          push_cast
          ring

theorem unitExponent_mono (hq : 0 < q) (h : q ≤ r) : unitExponent q ≤ unitExponent r :=
  max_le_max_right _ (sub_le_sub_right (Int.log_mono_right hq h) 52)

theorem neg_le_unitExponent (q : ℚ) : -1074 ≤ unitExponent q := le_max_right _ _

/-- A double keeps at most 53 bits of a number. -/
theorem div_unit_lt (hq : 0 < q) : q / 2 ^ unitExponent q < 2 ^ 53 := by
  have hlog := ((log_eq_iff hq _).mp rfl).2
  have hunit : Int.log 2 q - 52 ≤ unitExponent q := le_max_left _ _
  rw [div_lt_iff₀ (by positivity)]
  calc q < 2 ^ (Int.log 2 q + 1) := hlog
    _ ≤ 2 ^ (53 + unitExponent q) := zpow_le_zpow_right₀ (by norm_num) (by omega)
    _ = 2 ^ 53 * 2 ^ unitExponent q := by rw [zpow_add₀ two_ne_zero]; rfl

/-- It keeps no fewer, unless the number is written with the least exponent. -/
theorem le_div_unit (hq : 0 < q) (h : unitExponent q ≠ -1074) : 2 ^ 52 ≤ q / 2 ^ unitExponent q := by
  have hlog := ((log_eq_iff hq _).mp rfl).1
  have hunit : unitExponent q = Int.log 2 q - 52 :=
    (max_choice _ _).resolve_right h
  rw [le_div_iff₀ (by positivity)]
  calc (2 : ℚ) ^ 52 * 2 ^ unitExponent q = 2 ^ (52 + unitExponent q) := by
        rw [zpow_add₀ two_ne_zero]
        rfl
    _ = 2 ^ Int.log 2 q := by
        congr 1
        omega
    _ ≤ q := hlog

@[simp]
theorem magnitude_zero : magnitude 0 = 0 := by
  have hzero : nearestEven 0 = 0 := by simpa using nearestEven_natCast 0
  simp [magnitude, hzero]

theorem magnitude_nonneg (q : ℚ) : 0 ≤ magnitude q := by
  unfold magnitude
  positivity

/-- Rounding keeps the order. -/
theorem magnitude_mono (hq : 0 ≤ q) (h : q ≤ r) : magnitude q ≤ magnitude r := by
  obtain rfl | hpos := hq.eq_or_lt
  · rw [magnitude_zero]
    exact magnitude_nonneg r
  unfold magnitude
  rcases (unitExponent_mono hpos h).lt_or_eq with hlt | heq
  · -- the larger number has more bits before the last one that is kept
    have hr : unitExponent r ≠ -1074 := by
      have := neg_le_unitExponent q
      omega
    have hlow : nearestEven (q / 2 ^ unitExponent q) ≤ 2 ^ 53 :=
      nearestEven_le (by exact_mod_cast (div_unit_lt hpos).le)
    have hhigh : 2 ^ 52 ≤ nearestEven (r / 2 ^ unitExponent r) :=
      le_nearestEven (by exact_mod_cast le_div_unit (hpos.trans_le h) hr)
    calc (nearestEven (q / 2 ^ unitExponent q) : ℚ) * 2 ^ unitExponent q
        ≤ 2 ^ 53 * 2 ^ unitExponent q := by
          have : (nearestEven (q / 2 ^ unitExponent q) : ℚ) ≤ 2 ^ 53 := by exact_mod_cast hlow
          gcongr
      _ = 2 ^ 52 * 2 ^ (unitExponent q + 1) := by
          rw [zpow_add_one₀ two_ne_zero]
          ring
      _ ≤ 2 ^ 52 * 2 ^ unitExponent r := by
          gcongr
          · norm_num
          · omega
      _ ≤ nearestEven (r / 2 ^ unitExponent r) * 2 ^ unitExponent r := by
          have : (2 ^ 52 : ℚ) ≤ nearestEven (r / 2 ^ unitExponent r) := by exact_mod_cast hhigh
          gcongr
  · rw [← heq]
    have hmantissa : nearestEven (q / 2 ^ unitExponent q) ≤ nearestEven (r / 2 ^ unitExponent q) :=
      nearestEven_mono (by gcongr)
    gcongr

/-- Canonical numbers are not rounded. -/
theorem magnitude_canonical (h : IsCanonical m e) : magnitude (m * 2 ^ e) = m * 2 ^ e := by
  obtain rfl | hm := m.eq_zero_or_pos
  · simp
  have hpower : (2 : ℚ) ^ e ≠ 0 := by positivity
  have hquotient : (m * 2 ^ e : ℚ) / 2 ^ e = m := mul_div_cancel_right₀ _ hpower
  have hunit : unitExponent (m * 2 ^ e) = e := by
    have htarget := h.targetExponent_eq hm
    rw [targetExponent_eq] at htarget
    unfold unitExponent
    rw [log_eq (e := e) hm hquotient.ge (by rw [hquotient]; linarith)]
    unfold totalExponent at htarget
    omega
  rw [magnitude, hunit, hquotient, nearestEven_natCast]

end Magnitude

section Rounding

/-- A canonical result without overflow: the sign, and the mantissa and exponent of a magnitude. -/
inductive IsWritten (s : Sign) : ℚ → UnpackedFloat → Prop
  | zero : IsWritten s 0 (.zero s)
  | finite {m : ℕ} {e : ℤ} {hm : 0 < m} (h : IsCanonical m e) :
      IsWritten s (m * 2 ^ e) (.finite s m e hm)

variable {s : Sign} {q r : ℚ} {m : ℕ} {e : ℤ} {acc : Accuracy}

/-- A mantissa that is rounded up to one bit too many is shifted by it. -/
theorem isWritten_of_le {n : ℕ} (hn : n ≤ 2 ^ 53) (he : -1074 ≤ e) (hfull : e = -1074 ∨ 2 ^ 52 ≤ n) :
    IsWritten s (n * 2 ^ e)
      (let (em, f) := shiftToTargetExponent Format.binary64 n e .exact
       if h : em.mantissa = 0 then .zero s else .finite s em.mantissa f (Nat.pos_of_ne_zero h)) := by
  obtain rfl | hpos := n.eq_zero_or_pos
  · have hzero : (shiftToTargetExponent Format.binary64 0 e .exact).1.mantissa = 0 := by
      unfold shiftToTargetExponent shiftToExponent
      simp [shiftRight_mantissa, ExtendedMantissa.ofMantissaAndAccuracy]
    simp only [hzero, dite_true, Nat.cast_zero, zero_mul]
    exact .zero
  rcases hn.lt_or_eq with hlt | heq
  · have hcanonical : IsCanonical n e := ⟨hlt, he, hfull⟩
    have hshift := shiftToTargetExponent_mul hcanonical hpos 0
    rw [pow_zero, mul_one, Nat.cast_zero, sub_zero] at hshift
    simp only [hshift, hpos.ne', dite_false]
    exact .finite hcanonical
  · have hcanonical : IsCanonical (2 ^ 52) (e + 1) := ⟨by norm_num, by omega, .inr le_rfl⟩
    have hshift := shiftToTargetExponent_mul hcanonical (by norm_num) 1
    rw [pow_one, Nat.cast_one, add_sub_cancel_right] at hshift
    have hdouble : 2 ^ 52 * 2 = n := by omega
    have hvalue : (n : ℚ) * 2 ^ e = (2 ^ 52 : ℕ) * 2 ^ (e + 1) := by
      rw [← hdouble, zpow_add_one₀ two_ne_zero]
      push_cast
      ring
    rw [hdouble] at hshift
    simp only [hshift, hvalue]
    exact .finite hcanonical

/-- Rounding to the target exponent finds the magnitude, if the mantissa that is rounded has all the bits
of it. -/
theorem isWritten_roundWithAccuracy (hq : 0 < q)
    (hstands : StandsFor (ExtendedMantissa.ofMantissaAndAccuracy m acc) (q / 2 ^ e))
    (htarget : max (Format.binary64.targetExponent (totalExponent m e)) e = unitExponent q) :
    IsWritten s (magnitude q) (roundWithAccuracy Format.binary64 s m e acc) := by
  obtain ⟨k, hk⟩ : ∃ k : ℕ, (Format.binary64.targetExponent (totalExponent m e) - e).toNat = k :=
    ⟨_, rfl⟩
  have hexponent : e + k = unitExponent q := by omega
  have hshift := hstands.shiftRight k
  have hquotient : q / 2 ^ e / 2 ^ k = q / 2 ^ unitExponent q := by
    rw [div_div, ← zpow_natCast, ← zpow_add₀ two_ne_zero, hexponent]
  rw [hquotient] at hshift
  have hfirst : shiftToTargetExponent Format.binary64 m e acc =
      (ExtendedMantissa.ofMantissaAndAccuracy m acc >>> k, unitExponent q) := by
    unfold shiftToTargetExponent shiftToExponent
    simp only [hk, hexponent]
  unfold roundWithAccuracy
  rw [hfirst]
  simp only [hshift.roundedMantissa_eq]
  refine isWritten_of_le ?_ (neg_le_unitExponent q) ?_
  · exact nearestEven_le (by exact_mod_cast (div_unit_lt hq).le)
  · by_cases hleast : unitExponent q = -1074
    · exact .inl hleast
    · exact .inr (le_nearestEven (by exact_mod_cast le_div_unit hq hleast))

/-- A number with sign: what rounding makes of it, if exponents may be as large as needed. -/
def rounded (q : ℚ) : ℚ := if 0 ≤ q then magnitude q else -magnitude (-q)

theorem rounded_of_nonneg (hq : 0 ≤ q) : rounded q = magnitude q := if_pos hq

theorem rounded_neg (q : ℚ) : rounded (-q) = -rounded q := by
  unfold rounded
  rcases lt_trichotomy q 0 with h | rfl | h
  · rw [if_pos (by linarith), if_neg (by linarith), neg_neg]
  · simp
  · rw [if_neg (by linarith), if_pos h.le, neg_neg]

theorem rounded_mono (h : q ≤ r) : rounded q ≤ rounded r := by
  unfold rounded
  split_ifs with hq hr hr
  · exact magnitude_mono hq h
  · linarith
  · have := magnitude_nonneg (-q)
    have := magnitude_nonneg r
    linarith
  · exact neg_le_neg (magnitude_mono (by linarith) (by linarith))

/-- A magnitude with a sign. -/
def signed : Sign → ℚ → ℚ
  | .positive, q => q
  | .negative, q => -q

theorem value_zero (s : Sign) : value (.zero s) = 0 := rfl

theorem value_finite_eq (s : Sign) (hm : 0 < m) : value (.finite s m e hm) = signed s (m * 2 ^ e) := by
  cases s <;> rfl

theorem rounded_signed (s : Sign) (hq : 0 ≤ q) : rounded (signed s q) = signed s (magnitude q) := by
  cases s with
  | positive => exact rounded_of_nonneg hq
  | negative => exact (rounded_neg q).trans (congrArg _ (rounded_of_nonneg hq))

/-- The numbers from here on overflow. -/
def overflow : ℚ := 2 ^ (1024 : ℤ)

theorem lt_overflow (h : IsCanonical m e) (he : e ≤ 971) : (m * 2 ^ e : ℚ) < overflow := by
  have hmantissa : (m : ℚ) < 2 ^ (53 : ℤ) := by exact_mod_cast h.mantissa_lt
  calc (m * 2 ^ e : ℚ) < 2 ^ (53 : ℤ) * 2 ^ e := by gcongr
    _ = 2 ^ (53 + e) := (zpow_add₀ two_ne_zero _ _).symm
    _ ≤ overflow := zpow_le_zpow_right₀ (by norm_num) (by omega)

theorem overflow_le (h : IsCanonical m e) (he : 971 < e) : overflow ≤ m * 2 ^ e := by
  have hfull : 2 ^ 52 ≤ m := h.normal_or_least.resolve_left (by omega)
  have hmantissa : (2 ^ (52 : ℤ) : ℚ) ≤ m := by exact_mod_cast hfull
  calc overflow ≤ 2 ^ (52 + e) := zpow_le_zpow_right₀ (by norm_num) (by omega)
    _ = 2 ^ (52 : ℤ) * 2 ^ e := zpow_add₀ two_ne_zero _ _
    _ ≤ m * 2 ^ e := by gcongr

theorem overflow_pos : 0 < overflow := zpow_pos two_pos _

/-- The double that a number is rounded to, or an infinity if it overflows. -/
inductive Rounds (q : ℚ) : UnpackedFloat → Prop
  | finite {u} (hbound : |rounded q| < overflow) (hfinite : u.isFinite = true)
      (hvalue : value u = rounded q) : Rounds q u
  | above (h : overflow ≤ rounded q) : Rounds q (.infinity .positive)
  | below (h : rounded q ≤ -overflow) : Rounds q (.infinity .negative)

theorem repack_overflow (hm : 0 < m) (he : 971 < e) :
    repack (.finite s m e hm) = .infinity s := by
  have hpack : UnpackedFloat.pack Format.binary64 (.finite s m e hm) =
      packedInfinity Format.binary64 s := by
    rw [UnpackedFloat.pack]
    refine if_pos ?_
    change 2048 ≤ (e + 1023 + 52).toNat + 1
    omega
  unfold repack
  rw [hpack]
  exact repack_infinity s

/-- Storing a result finds the double that it is rounded to. -/
theorem rounds_repack {u : UnpackedFloat} (hq : 0 ≤ q) (h : IsWritten s (magnitude q) u) :
    Rounds (signed s q) (repack u) := by
  have hrounded := rounded_signed s hq
  generalize magnitude q = a at h hrounded
  cases h with
  | zero =>
    have hzero : rounded (signed s q) = 0 := by cases s <;> simpa [signed] using hrounded
    rw [repack_zero]
    exact .finite (by rw [hzero, abs_zero]; exact overflow_pos) rfl hzero.symm
  | @finite m e hm hcanonical =>
    by_cases he : e ≤ 971
    · have habs : |rounded (signed s q)| = m * 2 ^ e := by
        have hnonneg : (0 : ℚ) ≤ m * 2 ^ e := by positivity
        rw [hrounded]
        cases s <;> simp [signed, abs_of_nonneg hnonneg]
      rw [repack_canonical hcanonical hm he]
      exact .finite (habs.trans_lt (lt_overflow hcanonical he)) rfl
        ((value_finite_eq s hm).trans hrounded.symm)
    · have hlarge := overflow_le hcanonical (not_le.mp he)
      rw [repack_overflow hm (not_le.mp he)]
      cases s with
      | positive => exact .above (hrounded ▸ hlarge)
      | negative => exact .below (hrounded ▸ neg_le_neg hlarge)

end Rounding

section Comparisons

variable {q r : ℚ} {x y z : Float}

/-- Doubles are rounded to themselves. -/
theorem rounded_of_isStored (h : IsStored q) : rounded q = q := by
  obtain ⟨m, e, hcanonical, _, habs⟩ := h
  have hmagnitude : rounded (m * 2 ^ e) = m * 2 ^ e := by
    rw [rounded_of_nonneg (by positivity), magnitude_canonical hcanonical]
  rcases abs_choice q with h | h
  · rwa [← h, habs]
  · rw [← neg_neg q, ← h, habs, rounded_neg, hmagnitude]

theorem IsStored.lt_overflow (h : IsStored q) : |q| < overflow := by
  obtain ⟨m, e, hcanonical, he, habs⟩ := h
  exact habs.trans_lt (Double.lt_overflow hcanonical he)

theorem rounds_self (hx : (unpacked x).isFinite = true) :
    Rounds (value (unpacked x)) (unpacked x) := by
  have hrounded := rounded_of_isStored (isStored_value x)
  refine .finite ?_ hx hrounded.symm
  rw [hrounded]
  exact (isStored_value x).lt_overflow

theorem Rounds.value_eq {u : UnpackedFloat} (h : Rounds q u) (hu : u.isFinite = true) :
    value u = rounded q := by
  cases h with
  | finite _ _ hvalue => exact hvalue
  | above | below => cases hu

theorem Rounds.isNaN (h : Rounds q (unpacked x)) : Scalar.isNaN x = false := by
  rw [← Bool.not_eq_true, isNaN_iff]
  intro hnan
  rw [hnan] at h
  cases h with
  | finite _ hfinite _ => cases hfinite

theorem isStored_two_pow {k : ℤ} (hlow : -1022 ≤ k) (hhigh : k ≤ 1023) : IsStored (2 ^ k) := by
  refine ⟨2 ^ 52, k - 52, ⟨by norm_num, by omega, .inr le_rfl⟩, by omega, ?_⟩
  rw [abs_of_pos (by positivity), Nat.cast_pow, Nat.cast_ofNat, ← zpow_natCast,
    ← zpow_add₀ two_ne_zero]
  congr 1
  push_cast
  ring

/-- Rounding passes by no double. -/
theorem abs_rounded_le (hr : IsStored r) (hq : |q| ≤ r) : |rounded q| ≤ r := by
  have hbelow := rounded_mono (abs_le.mp hq).1
  have habove := rounded_mono (abs_le.mp hq).2
  rw [rounded_neg, rounded_of_isStored hr] at hbelow
  rw [rounded_of_isStored hr] at habove
  exact abs_le.mpr ⟨hbelow, habove⟩

/-- What is not beyond a double is not rounded to an infinity. -/
theorem Rounds.isFinite {u : UnpackedFloat} (h : Rounds q u) (hr : IsStored r) (hq : |q| ≤ r) :
    u.isFinite = true := by
  have hle := abs_le.mp (abs_rounded_le hr hq)
  have hlt := abs_lt.mp hr.lt_overflow
  cases h with
  | finite _ hfinite _ => exact hfinite
  | above h => linarith
  | below h => linarith

theorem Rounds.abs_value_le {u : UnpackedFloat} (h : Rounds q u) (hr : IsStored r) (hq : |q| ≤ r) :
    u.isFinite = true ∧ |value u| ≤ r :=
  ⟨h.isFinite hr hq, h.value_eq (h.isFinite hr hq) ▸ abs_rounded_le hr hq⟩

/-- Doubles are not rounded. -/
theorem Rounds.value_eq_of_isStored {u : UnpackedFloat} (h : Rounds q u) (hq : IsStored q) :
    u.isFinite = true ∧ value u = q := by
  have hfinite := h.isFinite (r := |q|) (by rcases abs_choice q with h | h <;> rw [h]; exacts [hq, hq.neg])
    le_rfl
  exact ⟨hfinite, (h.value_eq hfinite).trans (rounded_of_isStored hq)⟩

/-- What numbers are rounded to is in the order of the numbers. -/
theorem Rounds.le (hx : Rounds q (unpacked x)) (hy : Rounds r (unpacked y)) (h : q ≤ r) : x ≤ y := by
  have hmono := rounded_mono h
  have hpos := overflow_pos
  generalize hu : unpacked x = u at hx
  generalize hv : unpacked y = v at hy
  have hinfinity {s : Sign} (hu : unpacked x = .infinity s) (hv : unpacked y = .infinity s) :
      x ≤ y := by
    rw [le_iff, hu, hv]
    cases s <;> rfl
  cases hx with
  | finite hbound hfinite hvalue =>
    rw [← hu] at hfinite hvalue
    cases hy with
    | finite _ hfinite' hvalue' =>
      rw [← hv] at hfinite' hvalue'
      rw [le_iff_value hfinite hfinite', hvalue, hvalue']
      exact hmono
    | above _ => exact Scalar.le_of_lt (lt_infinity hfinite hv)
    | below hlarge =>
      have := (abs_lt.mp hbound).1
      linarith
  | above hlarge =>
    cases hy with
    | finite hbound _ _ =>
      have := (abs_lt.mp hbound).2
      linarith
    | above _ => exact hinfinity hu hv
    | below _ => linarith
  | below hlarge =>
    cases hy with
    | finite _ hfinite' _ => exact Scalar.le_of_lt (negInfinity_lt (hv ▸ hfinite') hu)
    | above _ =>
      rw [le_iff, hu, hv]
      rfl
    | below _ => exact hinfinity hu hv

end Comparisons

section Operations

variable {s : Sign} {m n : ℕ} {e f : ℤ} {x y : Float}

theorem unitExponent_mul_zpow (hn : 0 < n) (f : ℤ) :
    unitExponent (n * 2 ^ f) = Format.binary64.targetExponent (totalExponent n f) := by
  have hquotient : (n * 2 ^ f : ℚ) / 2 ^ f = n := mul_div_cancel_right₀ _ (by positivity)
  rw [targetExponent_eq, unitExponent, log_eq (e := f) hn hquotient.ge (by rw [hquotient]; linarith)]
  unfold totalExponent
  omega

theorem isWritten_round (hn : 0 < n) (f : ℤ) :
    IsWritten s (magnitude (n * 2 ^ f)) (UnpackedFloat.round Format.binary64 s n f) := by
  obtain ⟨k, hk⟩ : ∃ k : ℕ, (f - Format.binary64.targetExponent (totalExponent n f)).toNat = k :=
    ⟨_, rfl⟩
  unfold UnpackedFloat.round decreaseExponent
  simp only [hk, Nat.shiftLeft_eq]
  have hquotient : (n * 2 ^ f : ℚ) / 2 ^ (f - k) = (n * 2 ^ k : ℕ) := by
    rw [zpow_sub₀ two_ne_zero, zpow_natCast]
    field_simp
    push_cast
    rfl
  refine isWritten_roundWithAccuracy (by positivity) (hquotient ▸ standsFor_exact _) ?_
  rw [totalExponent_mul hn, unitExponent_mul_zpow hn]
  omega

theorem rounds_zero (s : Sign) : Rounds 0 (repack (.zero s)) := by
  have hzero := rounds_repack (s := s) (q := 0) le_rfl (by rw [magnitude_zero]; exact .zero)
  cases s <;> simpa [signed] using hzero

theorem rounds_normalize (i : ℤ) (e : ℤ) :
    Rounds (i * 2 ^ e) (repack (UnpackedFloat.normalize Format.binary64 i e .positive)) := by
  obtain rfl | hne := eq_or_ne i 0
  · rw [show UnpackedFloat.normalize Format.binary64 0 e .positive = .zero .positive from rfl]
    simpa [signed] using rounds_zero .positive
  obtain ⟨s, hs, hnormalize⟩ := normalize_eq_round (e := e) hne
  have hpositive := Int.natAbs_pos.mpr hne
  have hrounds := rounds_repack (by positivity) (isWritten_round (s := s) hpositive e)
  have hsigned : signed s (i.natAbs * 2 ^ e) = i * 2 ^ e := by
    rw [hs]
    cases s <;> simp [signed, Sign.apply]
  rwa [hnormalize, ← hsigned]

/-- A sum is correctly rounded. -/
theorem rounds_add (hx : (unpacked x).isFinite = true) (hy : (unpacked y).isFinite = true) :
    Rounds (value (unpacked x) + value (unpacked y)) (unpacked (x + y)) := by
  rw [unpacked_add]
  have hselfx := rounds_self hx
  have hselfy := rounds_self hy
  rcases hu : unpacked x with _ | _ | s | ⟨s, m₁, e₁, h₁⟩ <;>
    rcases hv : unpacked y with _ | _ | t | ⟨t, m₂, e₂, h₂⟩ <;>
      rw [hu] at hx hselfx <;> rw [hv] at hy hselfy <;> try cases hx <;> try cases hy
  case zero.zero =>
    rw [value_zero, value_zero, add_zero]
    simp only [UnpackedFloat.add]
    split <;> exact rounds_zero _
  case zero.finite =>
    simp only [UnpackedFloat.add]
    rw [repack_of_unpacked hv]
    simpa [value] using hselfy
  case finite.zero =>
    simp only [UnpackedFloat.add]
    rw [repack_of_unpacked hu]
    simpa [value] using hselfx
  case finite.finite =>
    rw [value_finite, value_finite, ← apply_shiftLeft s m₁ (min_le_left e₁ e₂),
      ← apply_shiftLeft t m₂ (min_le_right e₁ e₂), ← add_mul, ← Int.cast_add]
    exact rounds_normalize _ _

/-- So is a difference. -/
theorem rounds_sub (hx : (unpacked x).isFinite = true) (hy : (unpacked y).isFinite = true) :
    Rounds (value (unpacked x) - value (unpacked y)) (unpacked (x - y)) := by
  rw [sub_eq_add_neg, ← value_neg, ← unpacked_neg, unpacked_sub_eq_add]
  exact rounds_add hx (isFinite_neg hy)

theorem signed_mul (s t : Sign) (q r : ℚ) : signed s q * signed t r = signed (s * t) (q * r) := by
  cases s <;> cases t
  · exact neg_mul_neg q r
  · exact neg_mul q r
  · exact mul_neg q r
  · rfl

theorem signed_div (s t : Sign) (q r : ℚ) : signed s q / signed t r = signed (s / t) (q / r) := by
  cases s <;> cases t
  · exact neg_div_neg_eq q r
  · exact neg_div r q
  · exact div_neg q
  · rfl

/-- The product of two canonical mantissas has all the bits of the rounded product. -/
theorem isWritten_mul {m₁ m₂ : ℕ} {e₁ e₂ : ℤ} (h₁ : IsCanonical m₁ e₁) (h₂ : IsCanonical m₂ e₂)
    (hm₁ : 0 < m₁) (hm₂ : 0 < m₂) :
    IsWritten s (magnitude (m₁ * 2 ^ e₁ * (m₂ * 2 ^ e₂)))
      (roundWithAccuracy Format.binary64 s (m₁ * m₂) (e₁ + e₂) .exact) := by
  have hproduct : (m₁ * 2 ^ e₁ * (m₂ * 2 ^ e₂) : ℚ) = (m₁ * m₂ : ℕ) * 2 ^ (e₁ + e₂) := by
    rw [zpow_add₀ two_ne_zero]
    push_cast
    ring
  have hpos : 0 < m₁ * m₂ := Nat.mul_pos hm₁ hm₂
  have hquotient : ((m₁ * m₂ : ℕ) * 2 ^ (e₁ + e₂) : ℚ) / 2 ^ (e₁ + e₂) = (m₁ * m₂ : ℕ) :=
    mul_div_cancel_right₀ _ (by positivity)
  have hbits : e₁ + e₂ ≤ -1074 ∨ 52 ≤ (m₁ * m₂).log2 := by
    rw [Nat.le_log2 hpos.ne']
    rcases h₁.normal_or_least with hleast₁ | hfull
    · rcases h₂.normal_or_least with hleast₂ | hfull
      · exact .inl (by omega)
      · exact .inr (hfull.trans (Nat.le_mul_of_pos_left m₂ hm₁))
    · exact .inr (hfull.trans (Nat.le_mul_of_pos_right m₁ hm₂))
  rw [hproduct]
  refine isWritten_roundWithAccuracy (by positivity) (by rw [hquotient]; exact standsFor_exact _) ?_
  rw [unitExponent_mul_zpow hpos, targetExponent_eq]
  unfold totalExponent
  omega

/-- A product is correctly rounded. -/
theorem rounds_mul (hx : (unpacked x).isFinite = true) (hy : (unpacked y).isFinite = true) :
    Rounds (value (unpacked x) * value (unpacked y)) (unpacked (x * y)) := by
  rw [unpacked_mul]
  rcases hu : unpacked x with _ | _ | s | ⟨s, m₁, e₁, h₁⟩ <;>
    rcases hv : unpacked y with _ | _ | t | ⟨t, m₂, e₂, h₂⟩ <;>
      rw [hu] at hx <;> rw [hv] at hy <;> try cases hx <;> try cases hy
  case zero.zero => rw [value_zero, zero_mul]; exact rounds_zero _
  case zero.finite => rw [value_zero, zero_mul]; exact rounds_zero _
  case finite.zero => rw [value_zero, mul_zero]; exact rounds_zero _
  case finite.finite =>
    rw [value_finite_eq, value_finite_eq, signed_mul]
    exact rounds_repack (by positivity)
      (isWritten_mul (isCanonical_of_unpacked hu) (isCanonical_of_unpacked hv) h₁ h₂)

theorem le_log_div {m₁ m₂ : ℕ} (e₁ e₂ : ℤ) (hm₁ : 0 < m₁) (hm₂ : 0 < m₂) :
    totalExponent m₁ e₁ - totalExponent m₂ e₂ - 1 ≤ Int.log 2 (m₁ * 2 ^ e₁ / (m₂ * 2 ^ e₂) : ℚ) := by
  have hlow : (2 ^ (m₁.log2 : ℤ) : ℚ) ≤ m₁ := by exact_mod_cast Nat.log2_self_le hm₁.ne'
  have hhigh : (m₂ : ℚ) ≤ 2 ^ (m₂.log2 + 1 : ℤ) := by exact_mod_cast Nat.lt_log2_self.le
  rw [← Int.zpow_le_iff_le_log (by norm_num) (by positivity), Nat.cast_ofNat]
  unfold totalExponent
  calc (2 : ℚ) ^ (m₁.log2 + 1 + e₁ - (m₂.log2 + 1 + e₂) - 1)
      = 2 ^ (m₁.log2 : ℤ) * 2 ^ e₁ / (2 ^ (m₂.log2 + 1 : ℤ) * 2 ^ e₂) := by
        rw [← zpow_add₀ two_ne_zero, ← zpow_add₀ two_ne_zero, ← zpow_sub₀ two_ne_zero]
        congr 1
        ring
    _ ≤ m₁ * 2 ^ e₁ / (m₂ * 2 ^ e₂) := by gcongr

/-- The quotient of two mantissas is computed with all the bits of the rounded quotient. -/
theorem isWritten_div {m₁ m₂ : ℕ} {e₁ e₂ : ℤ} (hm₁ : 0 < m₁) (hm₂ : 0 < m₂) :
    IsWritten s (magnitude (m₁ * 2 ^ e₁ / (m₂ * 2 ^ e₂)))
      (let (m, e, acc) := divCore Format.binary64 m₁ e₁ m₂ e₂
       roundWithAccuracy Format.binary64 s m e acc) := by
  obtain ⟨e, he⟩ : ∃ e, min (e₁ - e₂)
      (Format.binary64.targetExponent (totalExponent m₁ e₁ - totalExponent m₂ e₂)) = e := ⟨_, rfl⟩
  obtain ⟨k, hk⟩ : ∃ k, (e₁ - e₂ - e).toNat = k := ⟨_, rfl⟩
  simp only [divCore, he, hk, Nat.shiftLeft_eq]
  have hquotient : (m₁ * 2 ^ e₁ / (m₂ * 2 ^ e₂) : ℚ) / 2 ^ e =
      (m₁ * 2 ^ k / m₂ : ℕ) + (m₁ * 2 ^ k % m₂ : ℕ) / m₂ := by
    have hpower : (2 : ℚ) ^ e₁ = 2 ^ k * 2 ^ e₂ * 2 ^ e := by
      rw [← zpow_natCast, ← zpow_add₀ two_ne_zero, ← zpow_add₀ two_ne_zero]
      congr 1
      omega
    have hmod : (m₁ * 2 ^ k : ℚ) = m₂ * (m₁ * 2 ^ k / m₂ : ℕ) + (m₁ * 2 ^ k % m₂ : ℕ) := by
      exact_mod_cast (Nat.div_add_mod (m₁ * 2 ^ k) m₂).symm
    rw [hpower]
    field_simp
    exact hmod
  have hremainder := standsFor_fraction (m₁ * 2 ^ k / m₂) (Nat.mod_lt (m₁ * 2 ^ k) hm₂)
  rw [← hquotient] at hremainder
  refine isWritten_roundWithAccuracy (by positivity) hremainder ?_
  have hlow := le_log_div e₁ e₂ hm₁ hm₂
  have hle := hremainder.mantissa_le
  have hlt := hremainder.lt_succ
  rw [mantissa_ofMantissaAndAccuracy] at hle hlt
  rw [targetExponent_eq] at he ⊢
  rw [unitExponent]
  rcases (m₁ * 2 ^ k / m₂).eq_zero_or_pos with hzero | hpos
  · -- a quotient without bits is below the least double
    have hsmall : Int.log 2 (m₁ * 2 ^ e₁ / (m₂ * 2 ^ e₂) : ℚ) < e := by
      rw [hzero, Nat.cast_zero, zero_add] at hlt
      rwa [← Int.lt_zpow_iff_log_lt (by norm_num) (by positivity), Nat.cast_ofNat,
        ← div_lt_one (by positivity)]
    rw [hzero]
    simp only [totalExponent, Nat.log2_zero]
    omega
  · rw [log_eq hpos hle hlt] at hlow ⊢
    simp only [totalExponent] at he hlow ⊢
    omega

/-- So is a quotient, if the divisor is not zero. -/
theorem rounds_div (hx : (unpacked x).isFinite = true) (hy : (unpacked y).isFinite = true)
    (hne : value (unpacked y) ≠ 0) :
    Rounds (value (unpacked x) / value (unpacked y)) (unpacked (x / y)) := by
  rw [unpacked_div]
  rcases hu : unpacked x with _ | _ | s | ⟨s, m₁, e₁, h₁⟩ <;>
    rcases hv : unpacked y with _ | _ | t | ⟨t, m₂, e₂, h₂⟩ <;>
      rw [hu] at hx <;> rw [hv] at hy hne <;> try cases hx <;> try cases hy
  case zero.zero => exact absurd rfl hne
  case finite.zero => exact absurd rfl hne
  case zero.finite => rw [value_zero, zero_div]; exact rounds_zero _
  case finite.finite =>
    rw [value_finite_eq, value_finite_eq, signed_div]
    exact rounds_repack (by positivity) (isWritten_div h₁ h₂)

/-- A natural number is converted to the double next to it. -/
theorem rounds_ofNat (n : ℕ) : Rounds n (unpacked (Scalar.ofNat n)) := by
  by_cases hlt : n < 2 ^ 53
  · obtain ⟨hfinite, hvalue⟩ := value_ofNat (isExact_of_lt hlt)
    exact hvalue ▸ rounds_self hfinite
  have hpos : 0 < n := by omega
  have hslow : (Scalar.ofNat n : Float) = Float.ofModel (Float.Model.ofScientific n 0) :=
    dif_neg fun h => hlt h.1
  have hsmall : ¬ (0 : ℤ) < -((2 ^ Format.binary64.exponentBits : ℤ) + n.log2) := by
    change ¬ (0 : ℤ) < -(2048 + (n.log2 : ℤ))
    omega
  have hproduct : UnpackedFloat.ofScientific Format.binary64 n 0 =
      roundWithAccuracy Format.binary64 .positive (n * 2 ^ 53) (-53) .exact := by
    unfold UnpackedFloat.ofScientific
    rw [dif_neg hpos.ne', if_neg (by decide), if_neg hsmall, if_pos le_rfl, ← Nat.shiftLeft_eq,
      ← Nat.mul_one (n <<< 53)]
    rfl
  have hquotient : (n : ℚ) / 2 ^ (-53 : ℤ) = (n * 2 ^ 53 : ℕ) := by
    push_cast
    rw [zpow_neg, div_inv_eq_mul]
    rfl
  have htotal : totalExponent (n * 2 ^ 53) (-53) = totalExponent n 0 :=
    totalExponent_mul (e := 0) hpos 53
  have hunit := unitExponent_mul_zpow hpos 0
  rw [zpow_zero, mul_one] at hunit
  have hwritten : IsWritten .positive (magnitude n) (UnpackedFloat.ofScientific Format.binary64 n 0) := by
    rw [hproduct]
    refine isWritten_roundWithAccuracy (by positivity) (by rw [hquotient]; exact standsFor_exact _) ?_
    rw [hunit, htotal]
    have hbits : 53 ≤ n.log2 := (Nat.le_log2 hpos.ne').mpr (not_lt.mp hlt)
    simp only [targetExponent_eq, totalExponent]
    omega
  rw [hslow]
  exact rounds_repack (s := .positive) (by positivity) hwritten

end Operations

end InfoFlow.Double
