import InfoFlow.Proofs.Scalar.DoubleRounding

namespace InfoFlow

variable {α : Type} [Scalar α]

/-- Between the bounds up to which the doubles have every integer. -/
structure Scalar.IsBounded (x : α) : Prop where
  ge : -Scalar.ofNat (2 ^ 53) ≤ x
  le : x ≤ Scalar.ofNat (2 ^ 53)

/-- Arithmetic in which the infinities are the ends of the order, and in which the natural numbers up to
`2 ^ 53` are finite. -/
class LawfulBounds (α : Type) [Scalar α] : Prop where
  isNaN_of_le {x y : α} : x ≤ y → Scalar.isNaN x = false ∧ Scalar.isNaN y = false
  le_infinity {x : α} : Scalar.isNaN x = false → x ≤ Scalar.infinity
  negInfinity_le {x : α} : Scalar.isNaN x = false → -Scalar.infinity ≤ x
  isFinite_ofNat {n : ℕ} : n ≤ 2 ^ 53 → Scalar.isFinite (Scalar.ofNat n : α) = true
  isFinite_neg {x : α} : Scalar.isFinite x = true → Scalar.isFinite (-x) = true
  le_of_not_lt_abs {x y : α} : Scalar.isNaN x = false → Scalar.isFinite y = true →
    ¬ y < Scalar.abs x → -y ≤ x ∧ x ≤ y

/-- Arithmetic in which rounding passes neither by 0 nor by 1, and in which the edges of equal parts of a
bounded range are finite. -/
class LawfulRounding (α : Type) [Scalar α] : Prop where
  half_nonpos {x : α} : x ≤ 0 → 0.5 * x ≤ 0
  one_le_one_sub {x : α} : x ≤ 0 → 1 ≤ 1 - x
  sub_nonpos {x y : α} : Scalar.isFinite x = true → Scalar.isFinite y = true → x ≤ y → x - y ≤ 0
  isFinite_edge {x y : α} {m i : ℕ} : Scalar.IsBounded x → Scalar.IsBounded y → 0 < m → m ≤ 2 ^ 64 →
    i ≤ m → Scalar.isFinite (x + Scalar.ofNat i * ((y - x) / Scalar.ofNat m)) = true

namespace Scalar

variable {x y z : α}

theorem min_eq_or (x y : α) : min x y = x ∨ min x y = y := by
  unfold min
  split
  · exact .inr rfl
  · split
    · exact .inr rfl
    · exact .inl rfl

theorem max_le (hx : x ≤ z) (hy : y ≤ z) : max x y ≤ z := by
  rcases max_eq_or x y with h | h <;> rwa [h]

theorem le_min (hx : z ≤ x) (hy : z ≤ y) : z ≤ min x y := by
  rcases min_eq_or x y with h | h <;> rwa [h]

variable [LawfulOrder α]

theorem le_max_right (x : α) (hy : isNaN y = false) : y ≤ max x y := by
  unfold max
  split
  · exact le_refl hy
  · rename_i hx
    split
    · exact le_refl hy
    · rename_i hlt
      exact le_of_not_lt (Bool.eq_false_of_not_eq_true hx) hy hlt

theorem le_max_left (y : α) (hx : isNaN x = false) : x ≤ max x y := by
  unfold max
  rw [if_neg (by simp [hx])]
  split
  · rename_i hlt
    exact le_of_lt hlt
  · exact le_refl hx

theorem min_le_right (x : α) (hy : isNaN y = false) : min x y ≤ y := by
  unfold min
  split
  · exact le_refl hy
  · rename_i hx
    split
    · exact le_refl hy
    · rename_i hlt
      exact le_of_not_lt hy (Bool.eq_false_of_not_eq_true hx) hlt

theorem min_le_left (y : α) (hx : isNaN x = false) : min x y ≤ x := by
  unfold min
  rw [if_neg (by simp [hx])]
  split
  · rename_i hlt
    exact le_of_lt hlt
  · exact le_refl hx

/-- What is cut off at two bounds lies between them. -/
theorem le_min_max (x : α) (h : y ≤ z) (hy : isNaN y = false) : y ≤ min (max x y) z :=
  le_min (le_max_right x hy) h

theorem IsBounded.of_between (hx : IsBounded x) (hz : IsBounded z) (hxy : x ≤ y) (hyz : y ≤ z) :
    IsBounded y :=
  ⟨LawfulOrder.le_trans hx.ge hxy, LawfulOrder.le_trans hyz hz.le⟩

variable [LawfulBounds α]

/-- Between finite numbers there are finite numbers only. -/
theorem isFinite_of_between (hxy : x ≤ y) (hyz : y ≤ z) (hx : isFinite x = true)
    (hz : isFinite z = true) : isFinite y = true := by
  obtain ⟨hnumberx, _, hbelow⟩ := isFinite_iff.mp hx
  obtain ⟨hnumberz, habove, _⟩ := isFinite_iff.mp hz
  refine isFinite_iff.mpr ⟨(LawfulBounds.isNaN_of_le hxy).2, ?_, ?_⟩
  · refine Bool.eq_false_of_not_eq_true fun h => ?_
    have hle := LawfulOrder.le_trans (LawfulOrder.beq_iff_le_le.mp h).2 hyz
    rw [LawfulOrder.beq_iff_le_le.mpr ⟨LawfulBounds.le_infinity hnumberz, hle⟩] at habove
    cases habove
  · refine Bool.eq_false_of_not_eq_true fun h => ?_
    have hle := LawfulOrder.le_trans hxy (LawfulOrder.beq_iff_le_le.mp h).1
    rw [LawfulOrder.beq_iff_le_le.mpr ⟨hle, LawfulBounds.negInfinity_le hnumberx⟩] at hbelow
    cases hbelow

theorem IsBounded.isFinite (h : IsBounded x) : isFinite x = true :=
  isFinite_of_between h.ge h.le (LawfulBounds.isFinite_neg (LawfulBounds.isFinite_ofNat le_rfl))
    (LawfulBounds.isFinite_ofNat le_rfl)

/-- Finite numbers are below infinity. -/
theorem lt_infinity (hx : isFinite x = true) : x < infinity := by
  obtain ⟨hnumber, hne, _⟩ := isFinite_iff.mp hx
  refine LawfulOrder.lt_iff_le_not_le.mpr ⟨LawfulBounds.le_infinity hnumber, fun hle => ?_⟩
  rw [LawfulOrder.beq_iff_le_le.mpr ⟨LawfulBounds.le_infinity hnumber, hle⟩] at hne
  cases hne

theorem negInfinity_lt (hx : isFinite x = true) : -infinity < x := by
  obtain ⟨hnumber, _, hne⟩ := isFinite_iff.mp hx
  refine LawfulOrder.lt_iff_le_not_le.mpr ⟨LawfulBounds.negInfinity_le hnumber, fun hle => ?_⟩
  rw [LawfulOrder.beq_iff_le_le.mpr ⟨hle, LawfulBounds.negInfinity_le hnumber⟩] at hne
  cases hne

end Scalar

instance : LawfulBounds Exact where
  isNaN_of_le {x y} h := by
    rw [← Bool.not_eq_true, ← Bool.not_eq_true, Exact.isNaN_iff, Exact.isNaN_iff]
    change Exact.Lt x y ∨ Exact.Equal x y at h
    cases x <;> cases y <;> simp_all [Exact.Lt, Exact.Equal]
  le_infinity {x} h := by
    rw [← Bool.not_eq_true, Exact.isNaN_iff] at h
    change Exact.Lt x .infinity ∨ Exact.Equal x .infinity
    cases x <;> simp_all [Exact.Lt, Exact.Equal]
  negInfinity_le {x} h := by
    rw [← Bool.not_eq_true, Exact.isNaN_iff] at h
    change Exact.Lt .negInfinity x ∨ Exact.Equal .negInfinity x
    cases x <;> simp_all [Exact.Lt, Exact.Equal]
  isFinite_ofNat _ := Exact.isFinite_iff.mpr ⟨_, rfl⟩
  isFinite_neg {x} h := by
    obtain ⟨x, rfl⟩ := Exact.isFinite_iff.mp h
    exact Exact.isFinite_iff.mpr ⟨-x, rfl⟩
  le_of_not_lt_abs {x y} hx hy h := by
    obtain ⟨y, rfl⟩ := Exact.isFinite_iff.mp hy
    rw [← Bool.not_eq_true, Exact.isNaN_iff] at hx
    cases x with
    | nan => exact absurd rfl hx
    | negInfinity | infinity => exact absurd trivial h
    | real x =>
      have habs : |x| ≤ y := not_lt.mp h
      rw [Exact.neg_real, Exact.real_le, Exact.real_le]
      exact abs_le.mp habs

namespace Exact

theorem abs_real (x : ℝ) : Scalar.abs (real x) = real |x| := rfl

theorem real_of_isBounded {x : Exact} (h : Scalar.IsBounded x) :
    ∃ r, x = real r ∧ -2 ^ 53 ≤ r ∧ r ≤ 2 ^ 53 := by
  obtain ⟨r, rfl⟩ := isFinite_iff.mp h.isFinite
  obtain ⟨hlow, hhigh⟩ := h
  rw [ofNat_eq, neg_real, real_le] at hlow
  rw [ofNat_eq, real_le] at hhigh
  exact ⟨r, rfl, by exact_mod_cast hlow, by exact_mod_cast hhigh⟩

theorem isBounded_real {y : ℝ} (hlow : -2 ^ 53 ≤ y) (hhigh : y ≤ 2 ^ 53) : Scalar.IsBounded (real y) := by
  have hlimit : (Scalar.ofNat (2 ^ 53) : Exact) = real (2 ^ 53) := by
    rw [ofNat_eq, Nat.cast_pow, Nat.cast_ofNat]
  constructor
  · rwa [hlimit, neg_real, real_le]
  · rwa [hlimit, real_le]

theorem half_eq : (0.5 : Exact) = real (1 / 2) := by
  change real (5 / 10 ^ 1) = _
  norm_num

theorem nonpos_iff {x : Exact} : x ≤ 0 ↔ x = negInfinity ∨ ∃ r, x = real r ∧ r ≤ 0 := by
  rw [zero_eq]
  cases x with
  | real r => simp
  | nan | infinity => exact iff_of_false (by rintro (h | ⟨h, _⟩) <;> cases h) (by simp)
  | negInfinity => exact iff_of_true (negInfinity_le_real 0) (.inl rfl)

instance : LawfulRounding Exact where
  half_nonpos {x} h := by
    rw [half_eq]
    rcases nonpos_iff.mp h with rfl | ⟨r, rfl, hr⟩
    · refine nonpos_iff.mpr (.inl ?_)
      exact unbounded_eq_negInfinity.mpr (by norm_num)
    · rw [real_mul]
      exact nonpos_iff.mpr (.inr ⟨_, rfl, by linarith⟩)
  one_le_one_sub {x} h := by
    rw [one_eq]
    rcases nonpos_iff.mp h with rfl | ⟨r, rfl, hr⟩
    · exact real_le_infinity 1
    · rw [real_sub, real_le]
      linarith
  sub_nonpos {x y} hx hy h := by
    obtain ⟨x, rfl⟩ := isFinite_iff.mp hx
    obtain ⟨y, rfl⟩ := isFinite_iff.mp hy
    rw [real_le] at h
    rw [zero_eq, real_sub, real_le]
    exact sub_nonpos.mpr h
  isFinite_edge {x y m i} hx hy hm _ _ := by
    obtain ⟨x, rfl, -⟩ := real_of_isBounded hx
    obtain ⟨y, rfl, -⟩ := real_of_isBounded hy
    rw [ofNat_eq, ofNat_eq, real_sub, real_div (by positivity), real_mul, real_add]
    exact isFinite_iff.mpr ⟨_, rfl⟩

end Exact

namespace Double

open Float.Model Float.Model.UnpackedFloat

theorem unpacked_abs (x : Float) : unpacked (Scalar.abs x) = (unpacked x).abs := by
  change repack (unpacked x).abs = _
  cases h : unpacked x with
  | notANumber => rfl
  | infinity s => exact repack_infinity _
  | zero s => exact repack_zero _
  | finite s m e hm => exact repack_of_unpacked h _

theorem value_abs (u : UnpackedFloat) : value u.abs = |value u| := by
  rcases u with _ | _ | _ | ⟨_ | _, m, e, hm⟩ <;>
    simp [UnpackedFloat.abs, value, abs_of_nonneg]

/-- Large numbers may be rounded, but not to an infinity. -/
theorem isFinite_ofNat {n : ℕ} (hn : n ≤ 2 ^ 64) : (unpacked (Scalar.ofNat n)).isFinite = true := by
  refine (rounds_ofNat n).isFinite (isStored_two_pow (k := 64) (by norm_num) (by norm_num)) ?_
  rw [Nat.abs_cast]
  exact_mod_cast hn

instance : LawfulBounds Float where
  isNaN_of_le {x y} h := by
    rw [le_iff, compare_eq_rank] at h
    rw [← Bool.not_eq_true, ← Bool.not_eq_true, isNaN_iff, isNaN_iff]
    constructor <;> intro hnan <;> simp [hnan, rank] at h
  le_infinity {x} h := by
    have htop : unpacked Scalar.infinity = .infinity .positive := rfl
    rcases isFinite_or_infinity h with hx | ⟨s, hx⟩
    · exact Scalar.le_of_lt (lt_infinity hx htop)
    · rw [le_iff, hx, htop]
      cases s <;> rfl
  negInfinity_le {x} h := by
    have hbottom : unpacked (-Scalar.infinity) = .infinity .negative := rfl
    rcases isFinite_or_infinity h with hx | ⟨s, hx⟩
    · exact Scalar.le_of_lt (negInfinity_lt hx hbottom)
    · rw [le_iff, hx, hbottom]
      cases s <;> rfl
  isFinite_ofNat hn := isFinite_iff.mpr (isFinite_ofNat (hn.trans (by norm_num)))
  isFinite_neg h := isFinite_iff.mpr (isFinite_neg (isFinite_iff.mp h))
  le_of_not_lt_abs {x y} hx hy h := by
    rw [isFinite_iff] at hy
    rcases isFinite_or_infinity hx with hx | ⟨s, hx⟩
    · have habs : (unpacked (Scalar.abs x)).isFinite = true := by
        rw [unpacked_abs]
        rcases hu : unpacked x with _ | _ | _ | _ <;> rw [hu] at hx <;> trivial
      rw [lt_iff_value hy habs, unpacked_abs, value_abs, not_lt, abs_le] at h
      rw [le_iff_value (isFinite_neg hy) hx, le_iff_value hx hy, unpacked_neg, value_neg]
      exact h
    · exact absurd (lt_infinity hy (by rw [unpacked_abs, hx]; rfl)) h

theorem value_of_isBounded (h : Scalar.IsBounded x) : (unpacked x).isFinite = true ∧
    -2 ^ 53 ≤ value (unpacked x) ∧ value (unpacked x) ≤ 2 ^ 53 := by
  obtain ⟨hlimit, hvalue⟩ := value_ofNat isExact_gapless
  have hfinite := isFinite_iff.mp h.isFinite
  obtain ⟨hlow, hhigh⟩ := h
  rw [le_iff_value (isFinite_neg hlimit) hfinite, unpacked_neg, value_neg, hvalue] at hlow
  rw [le_iff_value hfinite hlimit, hvalue] at hhigh
  exact ⟨hfinite, by exact_mod_cast hlow, by exact_mod_cast hhigh⟩

theorem isBounded_of_value (hx : (unpacked x).isFinite = true) (hlow : -2 ^ 53 ≤ value (unpacked x))
    (hhigh : value (unpacked x) ≤ 2 ^ 53) : Scalar.IsBounded x := by
  obtain ⟨hlimit, hvalue⟩ := value_ofNat isExact_gapless
  constructor
  · rw [le_iff_value (isFinite_neg hlimit) hx, unpacked_neg, value_neg, hvalue]
    exact_mod_cast hlow
  · rw [le_iff_value hx hlimit, hvalue]
    exact_mod_cast hhigh

theorem nonpos_iff : x ≤ 0 ↔ unpacked x = .infinity .negative ∨
    (unpacked x).isFinite = true ∧ value (unpacked x) ≤ 0 := by
  constructor
  · intro h
    rcases isFinite_or_infinity (LawfulBounds.isNaN_of_le h).1 with hx | ⟨s, hx⟩
    · exact .inr ⟨hx, (le_iff_value hx rfl).mp h⟩
    · cases s with
      | positive => exact absurd h (Scalar.not_le_of_lt (lt_infinity rfl hx))
      | negative => exact .inl hx
  · rintro (hx | ⟨hx, hle⟩)
    · exact Scalar.le_of_lt (negInfinity_lt rfl hx)
    · exact (le_iff_value hx rfl).mpr hle

theorem unpacked_half : unpacked 0.5 = .finite .positive (2 ^ 52) (-53) (by decide) := rfl

instance : LawfulRounding Float where
  half_nonpos {x} h := by
    rcases nonpos_iff.mp h with hx | ⟨hx, hle⟩
    · refine nonpos_iff.mpr (.inl ?_)
      change repack (UnpackedFloat.mul Format.binary64 (unpacked 0.5) (unpacked x)) = _
      rw [unpacked_half, hx]
      exact repack_infinity _
    · have hproduct := rounds_mul (x := 0.5) rfl hx
      refine hproduct.le (rounds_self rfl) (mul_nonpos_of_nonneg_of_nonpos ?_ hle)
      rw [unpacked_half]
      norm_num [value]
  one_le_one_sub {x} h := by
    rcases nonpos_iff.mp h with hx | ⟨hx, hle⟩
    · have hone : unpacked 1 = .finite .positive (2 ^ 52) (-52) (by decide) := rfl
      refine Scalar.le_of_lt (lt_infinity rfl ?_)
      rw [unpacked_sub, hone, hx]
      exact repack_infinity _
    · have hdifference := rounds_sub (x := 1) rfl hx
      exact (rounds_self rfl).le hdifference (by linarith)
  sub_nonpos {x y} hx hy h := by
    rw [isFinite_iff] at hx hy
    rw [le_iff_value hx hy] at h
    exact (rounds_sub hx hy).le (rounds_self rfl) (sub_nonpos.mpr h)
  isFinite_edge {x y m i} hx hy hm hmany hi := by
    obtain ⟨hx, hxl, hxh⟩ := value_of_isBounded hx
    obtain ⟨hy, hyl, hyh⟩ := value_of_isBounded hy
    have hpower {k : ℤ} (hk : 0 ≤ k) (hk' : k ≤ 1023) : IsStored (2 ^ k) :=
      isStored_two_pow (by omega) hk'
    have hcount {n : ℕ} (hn : n ≤ 2 ^ 64) : (unpacked (Scalar.ofNat n)).isFinite = true ∧
        |value (unpacked (Scalar.ofNat n))| ≤ 2 ^ (64 : ℤ) :=
      (rounds_ofNat n).abs_value_le (hpower (by norm_num) (by norm_num))
        (by rw [Nat.abs_cast]; exact_mod_cast hn)
    obtain ⟨hfinitem, -⟩ := hcount hmany
    obtain ⟨hfinitei, hi⟩ := hcount (hi.trans hmany)
    have hone : 1 ≤ value (unpacked (Scalar.ofNat m)) := by
      rw [(rounds_ofNat m).value_eq hfinitem, ← rounded_of_isStored (q := 1) (hpower (k := 0) le_rfl (by norm_num))]
      exact rounded_mono (by exact_mod_cast hm)
    obtain ⟨hwidth, hwidthle⟩ := (rounds_sub hy hx).abs_value_le (r := 2 ^ (54 : ℤ))
      (hpower (by norm_num) (by norm_num)) (by rw [abs_le]; norm_num; constructor <;> linarith)
    obtain ⟨hpart, hpartle⟩ := (rounds_div hwidth hfinitem (by linarith)).abs_value_le (r := 2 ^ (54 : ℤ))
      (hpower (by norm_num) (by norm_num)) (by
        rw [abs_div, abs_of_pos (by linarith : 0 < value (unpacked (Scalar.ofNat m)))]
        exact (div_le_self (abs_nonneg _) hone).trans hwidthle)
    obtain ⟨hoffset, hoffsetle⟩ := (rounds_mul hfinitei hpart).abs_value_le (r := 2 ^ (118 : ℤ))
      (hpower (by norm_num) (by norm_num)) (by
        rw [abs_mul]
        exact (mul_le_mul hi hpartle (abs_nonneg _) (by positivity)).trans (by norm_num))
    refine isFinite_iff.mpr ((rounds_add hx hoffset).isFinite (r := 2 ^ (119 : ℤ))
      (hpower (by norm_num) (by norm_num)) ?_)
    rw [abs_le] at hoffsetle ⊢
    norm_num at hoffsetle ⊢
    constructor <;> linarith

end Double

end InfoFlow
