import InfoFlow.Proofs.Scalar.Double
import InfoFlow.Proofs.Scalar.Exact

namespace InfoFlow

/-- Arithmetic in which all numbers but the NaNs are in a total order, up to equality. -/
class LawfulOrder (α : Type) [Scalar α] : Prop where
  isNaN_zero : Scalar.isNaN (0 : α) = false
  le_trans {x y z : α} : x ≤ y → y ≤ z → x ≤ z
  lt_iff_le_not_le {x y : α} : x < y ↔ x ≤ y ∧ ¬ y ≤ x
  beq_iff_le_le {x y : α} : (x == y) = true ↔ x ≤ y ∧ y ≤ x
  le_or_le {x y : α} : Scalar.isNaN x = false → Scalar.isNaN y = false → x ≤ y ∨ y ≤ x

/-- Arithmetic in which a change of units makes a NaN of no number. -/
class LawfulUnits (α : Type) [Scalar α] : Prop where
  isNaN_div_ln2 {x : α} : Scalar.isNaN x = false → Scalar.isNaN (x / Scalar.ln2) = false

/-- Numbers that are compared by their ranks in a total order, where only the NaNs have none. -/
theorem LawfulOrder.of_rank {α β : Type} [Scalar α] [LinearOrder β] (rank : α → Option β)
    (hzero : (rank 0).isSome)
    (hlt : ∀ x y : α, x < y ↔ ∃ a b, rank x = some a ∧ rank y = some b ∧ a < b)
    (hle : ∀ x y : α, x ≤ y ↔ ∃ a b, rank x = some a ∧ rank y = some b ∧ a ≤ b)
    (hbeq : ∀ x y : α, (x == y) = true ↔ ∃ a, rank x = some a ∧ rank y = some a) :
    LawfulOrder α := by
  have hnumber {x : α} : Scalar.isNaN x = false ↔ ∃ a, rank x = some a := by
    unfold Scalar.isNaN
    rw [Bool.not_eq_false', hbeq]
    simp only [and_self]
  constructor
  · rwa [hnumber, ← Option.isSome_iff_exists]
  · intro x y z hxy hyz
    rw [hle] at hxy hyz ⊢
    obtain ⟨a, b, ha, hb, hab⟩ := hxy
    obtain ⟨b', c, hb', hc, hbc⟩ := hyz
    obtain rfl : b = b' := Option.some.inj (hb.symm.trans hb')
    exact ⟨a, c, ha, hc, hab.trans hbc⟩
  · intro x y
    rw [hlt, hle, hle]
    cases rank x <;> cases rank y <;> simp
    exact le_of_lt
  · intro x y
    rw [hbeq, hle, hle]
    cases rank x <;> cases rank y <;> simp
    rw [eq_comm, le_antisymm_iff]
  · intro x y hx hy
    obtain ⟨a, ha⟩ := hnumber.mp hx
    obtain ⟨b, hb⟩ := hnumber.mp hy
    rw [hle, hle]
    rcases le_total a b with h | h
    · exact .inl ⟨a, b, ha, hb, h⟩
    · exact .inr ⟨b, a, hb, ha, h⟩

namespace Scalar

variable {α : Type} [Scalar α] [LawfulOrder α] {x y z : α}

theorem le_of_lt (h : x < y) : x ≤ y := (LawfulOrder.lt_iff_le_not_le.mp h).1

theorem not_le_of_lt (h : x < y) : ¬ y ≤ x := (LawfulOrder.lt_iff_le_not_le.mp h).2

theorem lt_of_lt_of_le (hxy : x < y) (hyz : y ≤ z) : x < z :=
  LawfulOrder.lt_iff_le_not_le.mpr ⟨LawfulOrder.le_trans (le_of_lt hxy) hyz,
    fun hzx => not_le_of_lt hxy (LawfulOrder.le_trans hyz hzx)⟩

theorem lt_of_le_of_lt (hxy : x ≤ y) (hyz : y < z) : x < z :=
  LawfulOrder.lt_iff_le_not_le.mpr ⟨LawfulOrder.le_trans hxy (le_of_lt hyz),
    fun hzx => not_le_of_lt hyz (LawfulOrder.le_trans hzx hxy)⟩

theorem lt_irrefl (x : α) : ¬ x < x := fun h => not_le_of_lt h (le_of_lt h)

theorem lt_asymm (h : x < y) : ¬ y < x := fun hlt => not_le_of_lt h (le_of_lt hlt)

theorem le_refl (h : isNaN x = false) : x ≤ x := (LawfulOrder.le_or_le h h).elim id id

theorem le_of_not_lt (hx : isNaN x = false) (hy : isNaN y = false) (h : ¬ x < y) : y ≤ x := by
  rcases LawfulOrder.le_or_le hx hy with hle | hle
  · by_contra hnot
    exact h (LawfulOrder.lt_iff_le_not_le.mpr ⟨hle, hnot⟩)
  · exact hle

theorem lt_of_not_le (hx : isNaN x = false) (hy : isNaN y = false) (h : ¬ x ≤ y) : y < x :=
  LawfulOrder.lt_iff_le_not_le.mpr ⟨(LawfulOrder.le_or_le hx hy).resolve_left h, h⟩

theorem beq_comm (x y : α) : (x == y) = (y == x) := by
  rw [Bool.eq_iff_iff, LawfulOrder.beq_iff_le_le, LawfulOrder.beq_iff_le_le, and_comm]

theorem beq_trans {x y z : α} (hxy : (x == y) = true) (hyz : (y == z) = true) : (x == z) = true := by
  rw [LawfulOrder.beq_iff_le_le] at hxy hyz ⊢
  exact ⟨LawfulOrder.le_trans hxy.1 hyz.1, LawfulOrder.le_trans hyz.2 hxy.2⟩

/-- What a number is equal to is a number. -/
theorem isNaN_of_beq (h : (x == y) = true) : isNaN y = false := by
  have hsymm : (y == x) = true := by rwa [beq_comm]
  simp [isNaN, beq_trans hsymm h]

omit [LawfulOrder α] in
theorem totalEq_refl (x : α) : totalEq x x = true := by
  unfold totalEq isNaN
  cases x == x <;> rfl

theorem totalEq_comm (x y : α) : totalEq x y = totalEq y x := by
  unfold totalEq
  rw [beq_comm, Bool.and_comm]

theorem totalEq_trans (hxy : totalEq x y = true) (hyz : totalEq y z = true) :
    totalEq x z = true := by
  unfold totalEq at hxy hyz ⊢
  rw [Bool.or_eq_true, Bool.and_eq_true] at hxy hyz ⊢
  rcases hxy with hxy | ⟨hx, hy⟩ <;> rcases hyz with hyz | ⟨hy', hz⟩
  · exact .inl (beq_trans hxy hyz)
  · simp [isNaN_of_beq hxy] at hy'
  · rw [beq_comm] at hyz
    simp [isNaN_of_beq hyz] at hy
  · exact .inr ⟨hx, hz⟩

/-- Only finite numbers are equal to finite numbers. -/
theorem isFinite_of_beq {x y : α} (h : (x == y) = true) (hy : isFinite y = true) :
    isFinite x = true := by
  have hsymm : (y == x) = true := by rwa [beq_comm]
  obtain ⟨_, hinfinity, hnegInfinity⟩ := isFinite_iff.mp hy
  refine isFinite_iff.mpr ⟨?_, ?_, ?_⟩
  · exact isNaN_of_beq hsymm
  · exact Bool.eq_false_of_not_eq_true fun heq => by simp [beq_trans hsymm heq] at hinfinity
  · exact Bool.eq_false_of_not_eq_true fun heq => by simp [beq_trans hsymm heq] at hnegInfinity

/-- The total order puts keys in the order of the arithmetic, if no NaN is among them. -/
theorem pairwise_mergeSort_totalLe {β : Type} (f : β → α) {xs : List β}
    (hxs : ∀ x ∈ xs, isNaN (f x) = false) :
    (xs.mergeSort fun a b => totalLe (f a) (f b)).Pairwise fun a b => f a ≤ f b := by
  lift xs to List {x : β // isNaN (f x) = false} using hxs
  have hle (a b : {x : β // isNaN (f x) = false}) :
      totalLe (f a.val) (f b.val) = true ↔ f a.val ≤ f b.val := by
    simp [totalLe, b.property]
  rw [← List.map_mergeSort (r := fun a b => totalLe (f a.val) (f b.val)) (by simp),
    List.pairwise_map]
  refine (List.pairwise_mergeSort ?_ ?_ xs).imp fun {a b} => (hle a b).mp
  · intro a b c
    simp only [hle]
    exact LawfulOrder.le_trans
  · intro a b
    rw [Bool.or_eq_true, hle, hle]
    exact LawfulOrder.le_or_le a.property b.property

/-- What is cut off at 0 is a number, since a NaN gives way to 0. -/
theorem isNaN_max_zero (x : α) : isNaN (max x 0) = false := by
  unfold max
  split
  · exact LawfulOrder.isNaN_zero
  · rename_i hx
    split
    · exact LawfulOrder.isNaN_zero
    · exact Bool.eq_false_of_not_eq_true hx

end Scalar

namespace Double

open Float.Model Float.Model.UnpackedFloat

/-- Where a number that is not a NaN stands among the others: by its sign and kind, and those of one
sign by exponent and mantissa. -/
def rank : UnpackedFloat → Option (ℤ ×ₗ ℤ ×ₗ ℤ)
  | .notANumber => none
  | .infinity .negative => some (toLex (-2, toLex (0, 0)))
  | .finite .negative m e _ => some (toLex (-1, toLex (-e, -m)))
  | .zero _ => some (toLex (0, toLex (0, 0)))
  | .finite .positive m e _ => some (toLex (1, toLex (e, m)))
  | .infinity .positive => some (toLex (2, toLex (0, 0)))

private theorem cmp_of_lt {s t : ℤ} (h : s < t) (a b : ℤ ×ₗ ℤ) :
    cmp (toLex (s, a)) (toLex (t, b)) = .lt := by
  rw [cmp_eq_lt_iff]
  simp [Prod.Lex.lt_iff, h]

private theorem cmp_of_gt {s t : ℤ} (h : t < s) (a b : ℤ ×ₗ ℤ) :
    cmp (toLex (s, a)) (toLex (t, b)) = .gt := by
  rw [cmp_eq_gt_iff]
  simp [Prod.Lex.lt_iff, h]

private theorem cmp_of_eq (s e₁ e₂ m₁ m₂ : ℤ) :
    cmp (toLex (s, toLex (e₁, m₁))) (toLex (s, toLex (e₂, m₂))) =
      (compare e₁ e₂).then (compare m₁ m₂) := by
  rcases lt_trichotomy e₁ e₂ with he | rfl | he
  · rw [Int.compare_eq_lt.mpr he, Ordering.lt_then, cmp_eq_lt_iff]
    simp [Prod.Lex.lt_iff, he]
  · rw [Int.compare_eq_eq.mpr rfl, Ordering.eq_then]
    rcases lt_trichotomy m₁ m₂ with hm | rfl | hm
    · rw [Int.compare_eq_lt.mpr hm, cmp_eq_lt_iff]
      simp [Prod.Lex.lt_iff, hm]
    · rw [Int.compare_eq_eq.mpr rfl, cmp_eq_eq_iff]
    · rw [Int.compare_eq_gt.mpr hm, cmp_eq_gt_iff]
      simp [Prod.Lex.lt_iff, hm]
  · rw [Int.compare_eq_gt.mpr he, Ordering.gt_then, cmp_eq_gt_iff]
    simp [Prod.Lex.lt_iff, he]

/-- Doubles are compared by their ranks. -/
theorem compare_eq_rank (u v : UnpackedFloat) :
    UnpackedFloat.compare u v = (rank u).bind fun a => (rank v).map fun b => cmp a b := by
  have hsigns : compare Sign.negative Sign.positive = .lt ∧
      compare Sign.positive Sign.negative = .gt ∧ compare Sign.negative Sign.negative = .eq ∧
      compare Sign.positive Sign.positive = .eq := ⟨rfl, rfl, rfl, rfl⟩
  have hcast (m₁ m₂ : Nat) : compare (m₁ : ℤ) m₂ = compare m₁ m₂ := by
    simp [compare, compareOfLessAndEq]
  have hneg (a b : ℤ) : compare (-a) (-b) = (compare a b).swap := by
    rw [Int.compare_swap]
    simp [compare, compareOfLessAndEq, eq_comm]
  rcases u with (_ | _) | _ | _ | ⟨_ | _, m₁, e₁, h₁⟩ <;>
    rcases v with (_ | _) | _ | _ | ⟨_ | _, m₂, e₂, h₂⟩ <;>
      simp [UnpackedFloat.compare, rank, hsigns, cmp_of_lt, cmp_of_gt, cmp_of_eq, hcast, hneg,
        Ordering.swap_then]

instance : LawfulOrder Float := by
  refine .of_rank (fun x => rank (unpacked x)) (by rw [unpacked_zero]; rfl) ?_ ?_ ?_
  · intro x y
    rw [lt_iff, compare_eq_rank]
    simp only [Option.bind_eq_some_iff, Option.map_eq_some_iff, cmp_eq_lt_iff]
    grind
  · intro x y
    have hcmp (a b : ℤ ×ₗ ℤ ×ₗ ℤ) : (cmp a b).isLE = true ↔ a ≤ b := by
      rw [Ordering.isLE_iff_ne_gt, cmp_eq_gt_iff, not_lt]
    rw [le_iff, compare_eq_rank, Option.any_eq_true]
    simp only [Option.bind_eq_some_iff, Option.map_eq_some_iff, ← hcmp]
    grind
  · intro x y
    rw [beq_iff, compare_eq_rank]
    simp only [Option.bind_eq_some_iff, Option.map_eq_some_iff, cmp_eq_eq_iff]
    grind

/-- Storing makes a NaN of nothing else. -/
theorem repack_ne_notANumber {u : UnpackedFloat} (hu : u ≠ .notANumber) :
    repack u ≠ .notANumber := by
  cases u with
  | notANumber => exact absurd rfl hu
  | infinity s => simp [repack_infinity]
  | zero s => simp [repack_zero]
  | finite s m e hm =>
    rcases repack_finite s m e hm with h | h | ⟨_, _, _, h⟩ <;> simp [h]

theorem roundWithAccuracy_ne_notANumber (s : Sign) (m : Nat) (e : Int) (a : Accuracy) :
    roundWithAccuracy Format.binary64 s m e a ≠ .notANumber := by
  rcases roundWithAccuracy_sign s m e a with h | ⟨_, _, _, h⟩ <;> simp [h]

instance : LawfulUnits Float where
  isNaN_div_ln2 {x} hx := by
    have hln2 : ∃ m e hm, unpacked Scalar.ln2 = .finite .positive m e hm := ⟨_, _, _, rfl⟩
    obtain ⟨m, e, hm, hln2⟩ := hln2
    rw [← Bool.not_eq_true, isNaN_iff] at hx ⊢
    rw [unpacked_div, hln2]
    apply repack_ne_notANumber
    cases hu : unpacked x with
    | notANumber => exact absurd hu hx
    | infinity s => simp [UnpackedFloat.div]
    | zero s => simp [UnpackedFloat.div]
    | finite s m' e' hm' => exact roundWithAccuracy_ne_notANumber _ _ _ _

end Double

namespace Exact

/-- The place of a number among the extended reals. -/
noncomputable def rank : Exact → Option EReal
  | nan => none
  | negInfinity => some ⊥
  | real x => some x
  | infinity => some ⊤

instance : LawfulOrder Exact := by
  refine .of_rank rank (by rw [zero_eq]; rfl) ?_ ?_ ?_
  · intro x y
    change Lt x y ↔ _
    cases x <;> cases y <;> simp [Lt, rank]
  · intro x y
    change Lt x y ∨ Equal x y ↔ _
    cases x <;> cases y <;> simp [Lt, Equal, rank, le_iff_lt_or_eq]
  · intro x y
    rw [beq_iff]
    cases x <;> cases y <;> simp [Equal, rank, eq_comm]

instance : LawfulUnits Exact where
  isNaN_div_ln2 {x} hx := by
    obtain ⟨y, hy, hln2⟩ := exists_ln2
    rw [← Bool.not_eq_true, isNaN_iff] at hx ⊢
    rw [hln2]
    cases x with
    | nan => exact absurd rfl hx
    | negInfinity =>
      change (if y < 0 then infinity else negInfinity) ≠ nan
      split <;> simp
    | real x =>
      rw [real_div hy.ne']
      simp
    | infinity =>
      change (if y < 0 then negInfinity else infinity) ≠ nan
      split <;> simp

end Exact

end InfoFlow
