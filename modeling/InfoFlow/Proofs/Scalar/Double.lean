import InfoFlow.Proofs.Scalar.Laws
import InfoFlow.Scalar.Double
import Mathlib

open Float.Model Float.Model.UnpackedFloat

namespace InfoFlow.Double

/-- The sign, mantissa and exponent of a double, or which of the special values it is. -/
def unpacked (x : Float) : UnpackedFloat := x.toModel.unpack

/-- What an unrounded result becomes once it is stored in a double. -/
def repack (u : UnpackedFloat) : UnpackedFloat :=
  UnpackedFloat.unpack Format.binary64 (UnpackedFloat.pack Format.binary64 u)

/-- The unpacked numbers below zero. -/
def IsNegative : UnpackedFloat → Prop
  | .infinity .negative => True
  | .finite .negative .. => True
  | _ => False

theorem unpacked_add (x y : Float) :
    unpacked (x + y) = repack (UnpackedFloat.add Format.binary64 (unpacked x) (unpacked y)) := rfl

theorem unpacked_sub (x y : Float) :
    unpacked (x - y) = repack (UnpackedFloat.sub Format.binary64 (unpacked x) (unpacked y)) := rfl

theorem unpacked_mul (x y : Float) :
    unpacked (x * y) = repack (UnpackedFloat.mul Format.binary64 (unpacked x) (unpacked y)) := rfl

theorem unpacked_div (x y : Float) :
    unpacked (x / y) = repack (UnpackedFloat.div Format.binary64 (unpacked x) (unpacked y)) := rfl

/-- Storing keeps the sign of a nonzero number, which may overflow or vanish. -/
theorem repack_finite (s : Sign) (m : Nat) (e : Int) (hm : 0 < m) :
    repack (.finite s m e hm) = .infinity s ∨ repack (.finite s m e hm) = .zero s ∨
      ∃ m' e' hm', repack (.finite s m e hm) = .finite s m' e' hm' := by
  have hcomponents (exponent : BitVec 11) (mantissa : BitVec 52) (hexponent : exponent ≠ -1#11) :
      UnpackedFloat.unpack Format.binary64
          (packComponents Format.binary64 s exponent mantissa) = .zero s ∨
        ∃ m' e' hm', UnpackedFloat.unpack Format.binary64
          (packComponents Format.binary64 s exponent mantissa) = .finite s m' e' hm' := by
    unfold UnpackedFloat.unpack
    simp only [unpackMantissa_packComponents, unpackExponent_packComponents,
      unpackSign_packComponents, Sign.ofBitVec_toBitVec, if_neg hexponent]
    split
    · split
      · exact .inl rfl
      · rename_i hmantissa
        refine .inr ⟨_, _, ?_, rfl⟩
        exact Nat.pos_of_ne_zero fun h => hmantissa (BitVec.eq_of_toNat_eq (by simpa using h))
    · refine .inr ⟨_, _, ?_, rfl⟩
      rw [BitVec.toNat_append]
      exact Nat.lt_of_lt_of_le (by simp [Nat.shiftLeft_eq]) Nat.left_le_or
  unfold repack
  rw [UnpackedFloat.pack]
  simp only
  split
  · left
    cases s <;> rfl
  · rename_i hsmall
    right
    split
    · apply hcomponents
      intro heq
      have hvalue := congrArg BitVec.toNat heq
      simp only [BitVec.toNat_ofNat, BitVec.toNat_neg] at hvalue
      norm_num at hvalue hsmall
      omega
    · exact hcomponents _ _ (by decide)

theorem repack_infinity (s : Sign) : repack (.infinity s) = .infinity s := by cases s <;> rfl

theorem repack_zero (s : Sign) : repack (.zero s) = .zero s := by cases s <;> rfl

/-- Storing turns no other result into a negative number. -/
theorem isNegative_of_repack {u : UnpackedFloat} (h : IsNegative (repack u)) : IsNegative u := by
  cases u with
  | notANumber => exact h
  | infinity s => rwa [repack_infinity] at h
  | zero s => rw [repack_zero] at h; exact h.elim
  | finite s m e hm =>
    cases s with
    | negative => trivial
    | positive =>
      rcases repack_finite .positive m e hm with heq | heq | ⟨_, _, _, heq⟩ <;>
        rw [heq] at h <;> exact h.elim

theorem isFinite_of_repack {u : UnpackedFloat} (h : (repack u).isFinite = true) :
    u.isFinite = true := by
  cases u with
  | notANumber => exact h
  | infinity s => rwa [repack_infinity] at h
  | zero s => rfl
  | finite s m e hm => rfl

/-- Rounding keeps the sign, although it may round to zero. -/
theorem roundWithAccuracy_sign (s : Sign) (m : Nat) (e : Int) (a : Accuracy) :
    roundWithAccuracy Format.binary64 s m e a = .zero s ∨
      ∃ m' e' hm', roundWithAccuracy Format.binary64 s m e a = .finite s m' e' hm' := by
  unfold roundWithAccuracy
  simp only
  split
  · exact .inl rfl
  · rename_i hmantissa
    exact .inr ⟨_, _, Nat.pos_of_ne_zero hmantissa, rfl⟩

/-- The numbers whose sign is positive, zero among them; a NaN has no sign to object to. -/
def HasPositiveSign : UnpackedFloat → Prop
  | .infinity s | .zero s | .finite s .. => s = .positive
  | .notANumber => True

theorem not_isNegative_of_hasPositiveSign {u : UnpackedFloat} (hu : HasPositiveSign u) :
    ¬ IsNegative u := by
  rcases u with (_ | _) | _ | (_ | _) | ⟨_ | _, m, e, hm⟩ <;>
    simp_all [HasPositiveSign, IsNegative]

theorem hasPositiveSign_roundWithAccuracy (m : Nat) (e : Int) (a : Accuracy) :
    HasPositiveSign (roundWithAccuracy Format.binary64 .positive m e a) := by
  rcases roundWithAccuracy_sign .positive m e a with h | ⟨_, _, _, h⟩ <;> rw [h] <;> rfl

theorem hasPositiveSign_repack {u : UnpackedFloat} (hu : HasPositiveSign u) :
    HasPositiveSign (repack u) := by
  cases u with
  | notANumber => trivial
  | infinity s => rwa [repack_infinity]
  | zero s => rwa [repack_zero]
  | finite s m e hm =>
    rcases repack_finite s m e hm with h | h | ⟨_, _, _, h⟩ <;> rw [h] <;> exact hu

theorem hasPositiveSign_normalize {m e : Int} (hm : 0 ≤ m) :
    HasPositiveSign (UnpackedFloat.normalize Format.binary64 m e .positive) := by
  rcases hm.eq_or_lt with rfl | hm
  · rfl
  · have hcompare : compare m 0 = .gt := Int.compare_eq_gt.mpr hm
    unfold UnpackedFloat.normalize
    rw [hcompare]
    exact hasPositiveSign_roundWithAccuracy _ _ _

theorem hasPositiveSign_mul {u v : UnpackedFloat} (hu : HasPositiveSign u)
    (hv : HasPositiveSign v) : HasPositiveSign (UnpackedFloat.mul Format.binary64 u v) := by
  have hsign : Sign.positive * Sign.positive = .positive := rfl
  cases u <;> cases v <;> simp_all [HasPositiveSign, UnpackedFloat.mul]
  case finite.finite => exact hasPositiveSign_roundWithAccuracy _ _ _

theorem hasPositiveSign_div {u v : UnpackedFloat} (hu : HasPositiveSign u)
    (hv : HasPositiveSign v) : HasPositiveSign (UnpackedFloat.div Format.binary64 u v) := by
  have hsign : Sign.positive / Sign.positive = .positive := rfl
  cases u <;> cases v <;> simp_all [HasPositiveSign, UnpackedFloat.div]
  case finite.finite => exact hasPositiveSign_roundWithAccuracy _ _ _

/-- A rounded mantissa is negative only if it was. -/
theorem neg_of_isNegative_normalize {m e : Int}
    (h : IsNegative (UnpackedFloat.normalize Format.binary64 m e .positive)) : m < 0 := by
  by_contra hm
  exact not_isNegative_of_hasPositiveSign (hasPositiveSign_normalize (by omega)) h

/-- A negative sum has a negative summand. Only two positive summands need the arithmetic: any other
pair of signs shows what the result is. -/
theorem isNegative_of_add {u v : UnpackedFloat}
    (h : IsNegative (UnpackedFloat.add Format.binary64 u v)) : IsNegative u ∨ IsNegative v := by
  rcases u with (_ | _) | _ | (_ | _) | ⟨_ | _, m₁, e₁, h₁⟩ <;>
    rcases v with (_ | _) | _ | (_ | _) | ⟨_ | _, m₂, e₂, h₂⟩ <;>
      try simp_all [IsNegative, UnpackedFloat.add]
  case finite.positive.finite.positive =>
    have hneg := neg_of_isNegative_normalize h
    simp only [Sign.apply] at hneg
    omega

theorem isNegative_of_mul {u v : UnpackedFloat}
    (h : IsNegative (UnpackedFloat.mul Format.binary64 u v)) : IsNegative u ∨ IsNegative v := by
  rcases u with (_ | _) | _ | (_ | _) | ⟨_ | _, m₁, e₁, h₁⟩ <;>
    rcases v with (_ | _) | _ | (_ | _) | ⟨_ | _, m₂, e₂, h₂⟩ <;>
      try simp_all [IsNegative, UnpackedFloat.mul]
  case finite.positive.finite.positive =>
    exact not_isNegative_of_hasPositiveSign (hasPositiveSign_roundWithAccuracy _ _ _) h

/-- A mantissa and an exponent that a double can have: the exponent is the least one, or the mantissa
has all its bits. -/
structure IsCanonical (m : Nat) (e : Int) : Prop where
  mantissa_lt : m < 2 ^ 53
  exponent_ge : -1074 ≤ e
  normal_or_least : e = -1074 ∨ 2 ^ 52 ≤ m

theorem isCanonical_of_unpacked {x : Float} {s : Sign} {m : Nat} {e : Int} {hm : 0 < m}
    (h : unpacked x = .finite s m e hm) : IsCanonical m e := by
  have hmantissa : (@unpackMantissa Format.binary64 x.toModel.toBits.toBitVec).toNat <
      2 ^ 52 := BitVec.isLt _
  unfold unpacked Float.Model.unpack UnpackedFloat.unpack at h
  simp only at h
  split at h
  · split at h <;> cases h
  · split at h
    · split at h
      · cases h
      · rename_i hexponent _
        cases h
        have heq : ((@unpackExponent Format.binary64
            x.toModel.toBits.toBitVec).toNat : Int) - (1023 + 52) + 1 = -1074 := by
          rw [hexponent]
          rfl
        exact ⟨by omega, heq.ge, .inl heq⟩
    · rename_i _ hexponent
      cases h
      have hbits : (1#1 ++ @unpackMantissa Format.binary64
          x.toModel.toBits.toBitVec).toNat = 2 ^ 52 +
            (@unpackMantissa Format.binary64 x.toModel.toBits.toBitVec).toNat := by
        rw [BitVec.toNat_append, ← Nat.shiftLeft_add_eq_or_of_lt hmantissa]
        rfl
      have hpositive : 0 < (@unpackExponent Format.binary64
          x.toModel.toBits.toBitVec).toNat :=
        Nat.pos_of_ne_zero fun hzero => hexponent (BitVec.eq_of_toNat_eq (by simpa using hzero))
      refine ⟨by omega, ?_, .inr (by omega)⟩
      change -1074 ≤ ((@unpackExponent Format.binary64
        x.toModel.toBits.toBitVec).toNat : Int) - (1023 + 52)
      omega

/-- Of two canonical numbers without sign, the one that is smaller has the smaller exponent, or the
smaller mantissa at the same exponent. -/
theorem compare_of_decreaseExponent_lt {m₁ m₂ : Nat} {e₁ e₂ : Int} (h₁ : IsCanonical m₁ e₁)
    (h₂ : IsCanonical m₂ e₂)
    (h : (decreaseExponent m₁ e₁ (min e₁ e₂)).1 < (decreaseExponent m₂ e₂ (min e₁ e₂)).1) :
    (compare e₁ e₂).then (compare m₁ m₂) = .lt := by
  simp only [decreaseExponent, Nat.shiftLeft_eq] at h
  rcases lt_trichotomy e₁ e₂ with hlt | rfl | hgt
  · rw [Int.compare_eq_lt.mpr hlt]
    rfl
  · simp only [min_self, sub_self, Int.toNat_zero, pow_zero, mul_one] at h
    rw [Int.compare_eq_eq.mpr rfl, Nat.compare_eq_lt.mpr h]
    rfl
  · -- the first number has all its bits and is shifted by at least one of them
    have hfull : 2 ^ 52 ≤ m₁ := h₁.normal_or_least.resolve_left (by have := h₂.exponent_ge; omega)
    rw [min_eq_right hgt.le] at h
    simp only [sub_self, Int.toNat_zero, pow_zero, mul_one] at h
    have hshift : 2 ^ 1 ≤ 2 ^ (e₁ - e₂).toNat := Nat.pow_le_pow_right (by decide) (by omega)
    have hproduct := Nat.mul_le_mul hfull hshift
    have := h₂.mantissa_lt
    omega

theorem lt_iff {x y : Float} :
    x < y ↔ UnpackedFloat.compare (unpacked x) (unpacked y) = some .lt := by
  change decide (x.toModel < y.toModel) = true ↔ _
  rw [decide_eq_true_iff]
  change (UnpackedFloat.compare (unpacked x) (unpacked y) == some .lt) = true ↔ _
  rw [beq_iff_eq]

theorem le_iff {x y : Float} :
    x ≤ y ↔ (UnpackedFloat.compare (unpacked x) (unpacked y)).any Ordering.isLE = true := by
  change decide (x.toModel ≤ y.toModel) = true ↔ _
  rw [decide_eq_true_iff]
  rfl

theorem beq_iff {x y : Float} :
    (x == y) = true ↔ UnpackedFloat.compare (unpacked x) (unpacked y) = some .eq := by
  change (UnpackedFloat.compare (unpacked x) (unpacked y) == some .eq) = true ↔ _
  rw [beq_iff_eq]

theorem neg_iff {x : Float} : x < 0 ↔ IsNegative (unpacked x) := by
  have hzero : unpacked 0 = .zero .positive := rfl
  rw [lt_iff, hzero]
  rcases unpacked x with (_ | _) | _ | (_ | _) | ⟨_ | _, m, e, hm⟩ <;>
    simp [UnpackedFloat.compare, IsNegative]

/-- The sign of a difference is that of the comparison, however the difference is rounded. -/
theorem lt_of_isNegative_sub {x y : Float}
    (h : IsNegative (UnpackedFloat.sub Format.binary64 (unpacked x) (unpacked y))) : x < y := by
  have hflip : -Sign.positive = .negative ∧ -Sign.negative = .positive := ⟨rfl, rfl⟩
  have hsigns : compare Sign.negative Sign.positive = .lt := rfl
  rw [lt_iff]
  rcases hx : unpacked x with (_ | _) | _ | (_ | _) | ⟨_ | _, m₁, e₁, h₁⟩ <;>
    rcases hy : unpacked y with (_ | _) | _ | (_ | _) | ⟨_ | _, m₂, e₂, h₂⟩ <;>
      rw [hx, hy] at h <;> try simp_all [IsNegative, UnpackedFloat.sub, UnpackedFloat.compare]
  case finite.negative.finite.negative =>
    have hneg := neg_of_isNegative_normalize h
    simp only [Sign.apply] at hneg
    have hless := compare_of_decreaseExponent_lt (isCanonical_of_unpacked hy)
      (isCanonical_of_unpacked hx) (by rw [min_comm]; omega)
    rw [← Ordering.swap_inj, Ordering.swap_then, Int.compare_swap, Nat.compare_swap, hless]
    rfl
  case finite.positive.finite.negative =>
    have hneg := neg_of_isNegative_normalize h
    simp only [Sign.apply] at hneg
    omega
  case finite.positive.finite.positive =>
    have hneg := neg_of_isNegative_normalize h
    simp only [Sign.apply] at hneg
    exact compare_of_decreaseExponent_lt (isCanonical_of_unpacked hx)
      (isCanonical_of_unpacked hy) (by omega)

theorem isNaN_iff {x : Float} : Scalar.isNaN x = true ↔ unpacked x = .notANumber := by
  have hsame (s : Sign) : compare s s = .eq := by cases s <;> rfl
  unfold Scalar.isNaN
  rw [Bool.not_eq_true', ← Bool.not_eq_true, beq_iff]
  rcases unpacked x with (_ | _) | _ | (_ | _) | ⟨_ | _, m, e, hm⟩ <;>
    simp [UnpackedFloat.compare, Ordering.then, hsame]

theorem beq_infinity_iff {x : Float} :
    (x == Scalar.infinity) = true ↔ unpacked x = .infinity .positive := by
  have hinfinity : unpacked Scalar.infinity = .infinity .positive := rfl
  have hsigns : compare Sign.negative Sign.positive = .lt ∧
      compare Sign.positive Sign.positive = .eq := ⟨rfl, rfl⟩
  rw [beq_iff, hinfinity]
  rcases unpacked x with (_ | _) | _ | (_ | _) | ⟨_ | _, m, e, hm⟩ <;>
    simp [UnpackedFloat.compare, hsigns]

theorem beq_negInfinity_iff {x : Float} :
    (x == -Scalar.infinity) = true ↔ unpacked x = .infinity .negative := by
  have hinfinity : unpacked (-Scalar.infinity) = .infinity .negative := rfl
  have hsigns : compare Sign.positive Sign.negative = .gt ∧
      compare Sign.negative Sign.negative = .eq := ⟨rfl, rfl⟩
  rw [beq_iff, hinfinity]
  rcases unpacked x with (_ | _) | _ | (_ | _) | ⟨_ | _, m, e, hm⟩ <;>
    simp [UnpackedFloat.compare, hsigns]

theorem isFinite_iff {x : Float} :
    Scalar.isFinite x = true ↔ (unpacked x).isFinite = true := by
  rw [Scalar.isFinite_iff, ← Bool.not_eq_true, ← Bool.not_eq_true, ← Bool.not_eq_true, isNaN_iff,
    beq_infinity_iff, beq_negInfinity_iff]
  rcases unpacked x with (_ | _) | _ | _ | _ <;> simp [UnpackedFloat.isFinite]

theorem isBottom_iff {x : Float} :
    Scalar.isBottom x = true ↔ unpacked x = .notANumber ∨ unpacked x = .infinity .negative := by
  unfold Scalar.isBottom
  rw [Bool.or_eq_true, isNaN_iff, beq_negInfinity_iff]

theorem hasPositiveSign_ofScientific (m : Nat) (e : Int) :
    HasPositiveSign (UnpackedFloat.ofScientific Format.binary64 m e) := by
  unfold UnpackedFloat.ofScientific
  split
  · rfl
  · split
    · rfl
    · split
      · rfl
      · split
        · apply hasPositiveSign_mul
          · rfl
          · rfl
        · apply hasPositiveSign_div
          · rfl
          · rfl

/-- A natural number is stored with a positive sign, rounded or not. -/
theorem hasPositiveSign_ofNat (n : Nat) : HasPositiveSign (unpacked (Scalar.ofNat n)) := by
  have hone : HasPositiveSign (unpacked (Float.ofBits 0x3FF0000000000000)) := rfl
  change HasPositiveSign (unpacked (Float.ofScientific n false 0))
  unfold Float.ofScientific
  split
  · change HasPositiveSign (unpacked (n.toUInt64.toFloat * Float.ofBits 0x3FF0000000000000))
    rw [unpacked_mul]
    apply hasPositiveSign_repack
    refine hasPositiveSign_mul ?_ hone
    change HasPositiveSign (repack (UnpackedFloat.normalize Format.binary64 _ 0 .positive))
    exact hasPositiveSign_repack (hasPositiveSign_normalize (Int.natCast_nonneg _))
  · change HasPositiveSign (repack (UnpackedFloat.ofScientific Format.binary64 n 0))
    exact hasPositiveSign_repack (hasPositiveSign_ofScientific n 0)

theorem isFinite_of_add {u v : UnpackedFloat}
    (h : (UnpackedFloat.add Format.binary64 u v).isFinite = true) :
    u.isFinite = true ∧ v.isFinite = true := by
  rcases u with (_ | _) | _ | (_ | _) | ⟨_ | _, m₁, e₁, h₁⟩ <;>
    rcases v with (_ | _) | _ | (_ | _) | ⟨_ | _, m₂, e₂, h₂⟩ <;>
      simp_all [UnpackedFloat.add, UnpackedFloat.isFinite]

theorem repack_sub_self {u : UnpackedFloat} (h : u.isFinite = true) :
    repack (UnpackedFloat.sub Format.binary64 u u) = .zero .positive := by
  cases u with
  | notANumber => cases h
  | infinity s => cases h
  | zero s => cases s <;> rfl
  | finite s m e hm =>
    have hdifference : UnpackedFloat.sub Format.binary64 (.finite s m e hm) (.finite s m e hm) =
        UnpackedFloat.normalize Format.binary64 0 e .positive := by
      simp [UnpackedFloat.sub]
    have hzero : UnpackedFloat.normalize Format.binary64 0 e .positive = .zero .positive := rfl
    rw [hdifference, hzero]
    exact repack_zero .positive

/-- What lies above a number that is not negative is positive. -/
theorem compare_zero_of_compare {u v : UnpackedFloat} (huv : UnpackedFloat.compare u v = some .lt)
    (hu : ¬ IsNegative u) : UnpackedFloat.compare (.zero .positive) v = some .lt := by
  rcases u with (_ | _) | _ | (_ | _) | ⟨_ | _, m₁, e₁, h₁⟩ <;>
    rcases v with (_ | _) | _ | (_ | _) | ⟨_ | _, m₂, e₂, h₂⟩ <;>
      simp_all [UnpackedFloat.compare, IsNegative]

theorem unpacked_zero : unpacked 0 = .zero .positive := rfl

instance : LawfulScalar Float where
  negInfinity_beq_self := beq_negInfinity_iff.mpr rfl
  isFinite_of_add {x y} h := by
    rw [isFinite_iff, unpacked_add] at h
    rw [isFinite_iff, isFinite_iff]
    exact isFinite_of_add (isFinite_of_repack h)
  sub_self_beq {x} h := by
    rw [isFinite_iff] at h
    rw [beq_iff, unpacked_sub, repack_sub_self h, unpacked_zero]
    rfl
  isBottom_sub {x y} h := by
    rw [beq_negInfinity_iff] at h
    rw [isBottom_iff, unpacked_sub, h]
    rcases unpacked y with (_ | _) | _ | _ | _
    · exact .inl rfl
    · exact .inr (repack_infinity _)
    · exact .inl rfl
    · exact .inr (repack_infinity _)
    · exact .inr (repack_infinity _)
  not_lt_of_isBottom {x y} h := by
    rw [isBottom_iff] at h
    rw [lt_iff]
    have hsigns : compare Sign.positive Sign.negative = .gt ∧
        compare Sign.negative Sign.negative = .eq := ⟨rfl, rfl⟩
    rcases h with h | h <;> rw [h] <;>
      rcases unpacked x with (_ | _) | _ | (_ | _) | ⟨_ | _, m, e, hm⟩ <;>
        simp [UnpackedFloat.compare, hsigns]
  not_zero_le_of_isBottom {y} h := by
    rw [isBottom_iff] at h
    rw [le_iff, unpacked_zero]
    rcases h with h | h <;> rw [h] <;> decide
  pos_of_lt {x y} hlt hx := by
    rw [neg_iff] at hx
    rw [lt_iff] at hlt
    rw [lt_iff, unpacked_zero]
    exact compare_zero_of_compare hlt hx
  not_neg_zero := by
    rw [neg_iff]
    exact id
  not_neg_add {x y} hx hy := by
    rw [neg_iff] at hx hy ⊢
    intro h
    rcases isNegative_of_add (isNegative_of_repack h) with h | h
    · exact hx h
    · exact hy h
  not_neg_mul {x y} hx hy := by
    rw [neg_iff] at hx hy ⊢
    intro h
    rcases isNegative_of_mul (isNegative_of_repack h) with h | h
    · exact hx h
    · exact hy h
  not_neg_sub {x y} hxy := by
    rw [neg_iff]
    exact fun h => hxy (lt_of_isNegative_sub (isNegative_of_repack h))
  not_neg_ratio a b := by
    rw [neg_iff, unpacked_div]
    apply not_isNegative_of_hasPositiveSign
    apply hasPositiveSign_repack
    exact hasPositiveSign_div (hasPositiveSign_ofNat a) (hasPositiveSign_ofNat b)

end InfoFlow.Double
