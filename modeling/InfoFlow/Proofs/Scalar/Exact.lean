import InfoFlow.Decimal.Shortest
import InfoFlow.Proofs.Scalar.Laws
import Mathlib.Analysis.SpecialFunctions.Log.Base
import Mathlib.Analysis.SpecialFunctions.Log.Deriv
import Mathlib.Analysis.SpecialFunctions.Pow.Real
import Mathlib.Analysis.SpecialFunctions.Trigonometric.Arctan
import Mathlib.Data.Multiset.Fold

namespace InfoFlow

inductive Exact where
  | nan
  | negInfinity
  | real (x : ℝ)
  | infinity

namespace Exact

noncomputable section

open Classical

/-- The infinity with the sign of a number; a NaN for zero. -/
def unbounded (x : ℝ) : Exact :=
  if 0 < x then infinity else if x < 0 then negInfinity else nan

/-- A function of the numbers, with its values at the infinities. -/
def extend (f : ℝ → Exact) (below above : Exact) : Exact → Exact
  | nan => nan
  | negInfinity => below
  | real x => f x
  | infinity => above

def add : Exact → Exact → Exact
  | real x, real y => real (x + y)
  | real _, infinity | infinity, real _ | infinity, infinity => infinity
  | real _, negInfinity | negInfinity, real _ | negInfinity, negInfinity => negInfinity
  | _, _ => nan

def neg : Exact → Exact := extend (fun x => real (-x)) infinity negInfinity

def mul : Exact → Exact → Exact
  | real x, real y => real (x * y)
  | real x, infinity | infinity, real x => unbounded x
  | real x, negInfinity | negInfinity, real x => unbounded (-x)
  | infinity, infinity | negInfinity, negInfinity => infinity
  | infinity, negInfinity | negInfinity, infinity => negInfinity
  | nan, _ | _, nan => nan

def div : Exact → Exact → Exact
  | real x, real y => if y = 0 then unbounded x else real (x / y)
  | real _, infinity | real _, negInfinity => real 0
  | infinity, real y => if y < 0 then negInfinity else infinity
  | negInfinity, real y => if y < 0 then infinity else negInfinity
  | _, _ => nan

/-- The order of the numbers and the infinities; a NaN is not comparable. -/
def Lt : Exact → Exact → Prop
  | real x, real y => x < y
  | negInfinity, real _ | negInfinity, infinity | real _, infinity => True
  | _, _ => False

def Equal (x y : Exact) : Prop := x = y ∧ x ≠ nan

/-- The number with the magnitude and the sign of a finite double. -/
def ofFloat (x : Float) : Exact :=
  let magnitude := (Binary.ofFloat? x).map fun b => (b.mantissa * 2 ^ b.exponent : ℝ)
  match magnitude, Binary.isNegative x with
  | some y, false => real y
  | some y, true => real (-y)
  | none, false => if x.isNaN then nan else infinity
  | none, true => if x.isNaN then nan else negInfinity

def truncate (x : ℝ) : ℤ := if x < 0 then ⌈x⌉ else ⌊x⌋

/-- Truncation toward zero, clamped to two bounds. -/
def toWord (lower upper : ℤ) : Exact → ℤ
  | nan => 0
  | negInfinity => lower
  | real x => max lower (min upper (truncate x))
  | infinity => upper

def log (base : ℝ) : Exact → Exact :=
  extend (fun x =>
    if 0 < x then real (Real.log x / Real.log base) else if x = 0 then negInfinity else nan) nan
    infinity

/-- The power of a number; that of an infinity is a NaN unless the exponent is zero. -/
def pow : Exact → Exact → Exact
  | real x, real y =>
    if x = 0 ∧ y < 0 then infinity
    else if 0 ≤ x ∨ truncate y = y then real (x ^ y)
    else nan
  | _, real y => if y = 0 then real 1 else nan
  | _, _ => nan

def remainder : Exact → Exact → Exact
  | real x, real y => if y = 0 then nan else real (x - y * truncate (x / y))
  | real x, infinity | real x, negInfinity => real x
  | _, _ => nan

def text : Exact → String
  | nan => "NaN"
  | negInfinity => "-inf"
  | real x => if truncate x = x then toString (truncate x) else "a fraction"
  | infinity => "inf"

/-- Numbers that are not equal are more representable numbers apart than there are words, and none is
the next smaller one. -/
instance : Scalar Exact where
  add := add
  sub x y := add x (neg y)
  mul := mul
  div := div
  neg := neg
  lt := Lt
  le x y := Lt x y ∨ Equal x y
  beq x y := decide (Equal x y)
  decLt _ _ := propDecidable _
  decLe _ _ := propDecidable _
  ofNat n := real n
  ofScientific m isNegative e := real (if isNegative then m / 10 ^ e else m * 10 ^ e)
  ofFloat := ofFloat
  infinity := infinity
  nan := nan
  abs := extend (fun x => real |x|) infinity infinity
  floor := extend (fun x => real ⌊x⌋) negInfinity infinity
  ceil := extend (fun x => real ⌈x⌉) negInfinity infinity
  round := extend (fun x => real (if x < 0 then ⌈x - 1 / 2⌉ else ⌊x + 1 / 2⌋)) negInfinity infinity
  sqrt := extend (fun x => if x < 0 then nan else real (Real.sqrt x)) nan infinity
  exp := extend (fun x => real (Real.exp x)) (real 0) infinity
  log := log (Real.exp 1)
  log2 := log 2
  log10 := log 10
  sin := extend (fun x => real (Real.sin x)) nan nan
  tan := extend (fun x => real (Real.tan x)) nan nan
  atan := extend (fun x => real (Real.arctan x)) (real (-(Real.pi / 2))) (real (Real.pi / 2))
  pow := pow
  remainder := remainder
  toUInt64 x := .ofNat (toWord 0 (2 ^ 64 - 1) x).toNat
  toInt64 x := .ofInt (toWord (-2 ^ 63) (2 ^ 63 - 1) x)
  steps x y := if Equal x y then 0 else UInt64.size
  predecessor x := x
  text := text

end

variable {x y : ℝ}

@[simp]
theorem real_add : real x + real y = real (x + y) := rfl

@[simp]
theorem real_sub : real x - real y = real (x - y) := by
  rw [sub_eq_add_neg]
  rfl

@[simp]
theorem real_mul : real x * real y = real (x * y) := rfl

@[simp]
theorem neg_real : -real x = real (-x) := rfl

@[simp]
theorem real_div (hy : y ≠ 0) : real x / real y = real (x / y) := if_neg hy

@[simp]
theorem real_lt : real x < real y ↔ x < y := Iff.rfl

theorem beq_iff {z w : Exact} : (z == w) = true ↔ z.Equal w :=
  @decide_eq_true_iff _ (Classical.propDecidable _)

@[simp]
theorem real_beq : (real x == real y) = decide (x = y) := by
  rw [Bool.eq_iff_iff, beq_iff, decide_eq_true_iff]
  simp [Equal]

@[simp]
theorem real_le : real x ≤ real y ↔ x ≤ y := by
  rw [le_iff_lt_or_eq]
  refine or_congr Iff.rfl ⟨fun h => ?_, fun h => ⟨h ▸ rfl, by simp⟩⟩
  cases h.1
  rfl

@[simp]
theorem ofNat_eq {n : Nat} : (Scalar.ofNat n : Exact) = real n := rfl

theorem ofScientific_eq (m : ℕ) (isNegative : Bool) (e : ℕ) :
    (OfScientific.ofScientific m isNegative e : Exact) =
      real (if isNegative then m / 10 ^ e else m * 10 ^ e) := rfl

@[simp]
theorem exp_real : Scalar.exp (real x) = real (Real.exp x) := rfl

@[simp]
theorem infinity_eq : (Scalar.infinity : Exact) = infinity := rfl

@[simp]
theorem neg_infinity : -infinity = negInfinity := rfl

@[simp]
theorem beq_infinity {z : Exact} : (z == infinity) = true ↔ z = infinity := by
  rw [beq_iff]
  exact ⟨And.left, fun h => ⟨h, by simp [h]⟩⟩

@[simp]
theorem beq_negInfinity {z : Exact} : (z == negInfinity) = true ↔ z = negInfinity := by
  rw [beq_iff]
  exact ⟨And.left, fun h => ⟨h, by simp [h]⟩⟩

@[simp]
theorem isNaN_iff {z : Exact} : Scalar.isNaN z = true ↔ z = nan := by
  unfold Scalar.isNaN
  rw [Bool.not_eq_true', ← Bool.not_eq_true, beq_iff]
  simp [Equal]

theorem isFinite_iff {z : Exact} : Scalar.isFinite z = true ↔ ∃ x, z = real x := by
  rw [Scalar.isFinite_iff, ← Bool.not_eq_true, ← Bool.not_eq_true, ← Bool.not_eq_true, isNaN_iff,
    infinity_eq, neg_infinity, beq_infinity, beq_negInfinity]
  cases z <;> simp

theorem isBottom_iff {z : Exact} : Scalar.isBottom z = true ↔ z = nan ∨ z = negInfinity := by
  unfold Scalar.isBottom
  rw [Bool.or_eq_true, isNaN_iff, infinity_eq, neg_infinity, beq_negInfinity]

theorem zero_eq : (0 : Exact) = real 0 := by
  change real ((0 : ℕ) : ℝ) = real 0
  rw [Nat.cast_zero]

theorem zero_le_real : (0 : Exact) ≤ real x ↔ 0 ≤ x := by
  rw [zero_eq, real_le]

theorem zero_le_zero : (0 : Exact) ≤ 0 := by
  rw [zero_eq, real_le]

theorem one_eq : (1 : Exact) = real 1 := by
  change real ((1 : ℕ) : ℝ) = real 1
  rw [Nat.cast_one]

theorem lt_zero_iff {z : Exact} : z < 0 ↔ z = negInfinity ∨ ∃ x, z = real x ∧ x < 0 := by
  rw [zero_eq]
  change Lt z (real 0) ↔ _
  cases z <;> simp [Lt]

theorem zero_lt_iff {z : Exact} : 0 < z ↔ z = infinity ∨ ∃ x, z = real x ∧ 0 < x := by
  rw [zero_eq]
  change Lt (real 0) z ↔ _
  cases z <;> simp [Lt]

theorem unbounded_eq_negInfinity : unbounded x = negInfinity ↔ x < 0 := by
  unfold unbounded
  split
  · rename_i hpos
    simp [hpos.le]
  · split <;> simp_all

theorem unbounded_ne_real : unbounded x ≠ real y := by
  unfold unbounded
  split
  · simp
  · split <;> simp

/-- No law but the one on ratios looks into the real numbers further than to their order. -/
instance : LawfulScalar Exact where
  negInfinity_beq_self := by simp
  isFinite_of_add {x y} h := by
    obtain ⟨z, hz⟩ := isFinite_iff.mp h
    change add x y = real z at hz
    cases x <;> cases y <;> simp_all [add, isFinite_iff]
  sub_self_beq {x} h := by
    obtain ⟨z, rfl⟩ := isFinite_iff.mp h
    rw [real_sub, zero_eq, real_beq, sub_self]
    exact decide_eq_true rfl
  isBottom_sub {x y} h := by
    rw [infinity_eq, neg_infinity, beq_negInfinity] at h
    rw [isBottom_iff, h]
    change add negInfinity (neg y) = _ ∨ add negInfinity (neg y) = _
    cases y <;> simp [neg, extend, add]
  not_lt_of_isBottom {x y} h := by
    rcases isBottom_iff.mp h with rfl | rfl <;> cases x <;> exact id
  not_zero_le_of_isBottom {y} h := by
    rw [zero_eq]
    change ¬ (Lt (real 0) y ∨ Equal (real 0) y)
    rcases isBottom_iff.mp h with rfl | rfl <;> simp [Lt, Equal]
  pos_of_lt {x y} hlt hx := by
    rw [lt_zero_iff] at hx
    rw [zero_lt_iff]
    change Lt x y at hlt
    cases x <;> cases y <;> simp_all [Lt]
    linarith
  not_neg_zero := by
    rw [lt_zero_iff, zero_eq]
    simp
  not_neg_add {x y} hx hy := by
    rw [lt_zero_iff] at hx hy ⊢
    change ¬ (add x y = negInfinity ∨ ∃ z, add x y = real z ∧ z < 0)
    cases x <;> cases y <;> simp_all [add]
    linarith
  not_neg_mul {x y} hx hy := by
    rw [lt_zero_iff] at hx hy ⊢
    change ¬ (mul x y = negInfinity ∨ ∃ z, mul x y = real z ∧ z < 0)
    cases x <;> cases y <;> simp_all [mul, unbounded_eq_negInfinity, unbounded_ne_real]
    exact mul_nonneg hx hy
  not_neg_sub {x y} hxy := by
    rw [lt_zero_iff]
    change ¬ Lt x y at hxy
    change ¬ (add x (neg y) = negInfinity ∨ ∃ z, add x (neg y) = real z ∧ z < 0)
    cases x <;> cases y <;> simp_all [add, neg, extend, Lt]
  not_neg_ratio a b := by
    rw [lt_zero_iff, ofNat_eq, ofNat_eq]
    change ¬ ((if (b : ℝ) = 0 then unbounded a else real (a / b)) = negInfinity ∨
      ∃ z, (if (b : ℝ) = 0 then unbounded a else real (a / b)) = real z ∧ z < 0)
    have hratio : ¬ (a / b : ℝ) < 0 := not_lt.mpr (by positivity)
    split
    · simp [unbounded_eq_negInfinity, unbounded_ne_real]
    · simpa using hratio

instance : LawfulExp Exact where
  not_neg_exp x := by
    rw [lt_zero_iff]
    change ¬ (extend (fun x => real (Real.exp x)) (real 0) infinity x = _ ∨
      ∃ z, extend (fun x => real (Real.exp x)) (real 0) infinity x = real z ∧ z < 0)
    cases x <;> simp [extend, (Real.exp_pos _).le]
  not_pos_exp_of_isBottom {x} h := by
    rw [zero_lt_iff]
    change ¬ (extend (fun x => real (Real.exp x)) (real 0) infinity x = _ ∨
      ∃ z, extend (fun x => real (Real.exp x)) (real 0) infinity x = real z ∧ 0 < z)
    rcases isBottom_iff.mp h with rfl | rfl <;> simp [extend]
  pos_exp_of_beq_zero {x} h := by
    rw [zero_eq, beq_iff] at h
    rw [h.1, exp_real, zero_lt_iff]
    exact .inr ⟨_, rfl, Real.exp_pos 0⟩

/-- The number behind a finite value. -/
def toReal : Exact → ℝ
  | real x => x
  | _ => 0

theorem eq_real_toReal {z : Exact} (h : Scalar.isFinite z = true) : z = real z.toReal := by
  obtain ⟨x, rfl⟩ := isFinite_iff.mp h
  rfl

private theorem foldl_add_eq (zs : List Exact) (start : ℝ)
    (h : ∀ z ∈ zs, Scalar.isFinite z = true) :
    zs.foldl (· + ·) (real start) = real (start + (zs.map toReal).sum) := by
  induction zs generalizing start with
  | nil => simp
  | cons z zs ih =>
    rw [List.foldl_cons, eq_real_toReal (h z List.mem_cons_self), real_add,
      ih _ fun w hw => h w (List.mem_cons_of_mem z hw)]
    simp [toReal, add_assoc]

/-- Sums of finite values are those of real numbers, in whatever order they are taken. -/
theorem sum_eq {zs : List Exact} (h : ∀ z ∈ zs, Scalar.isFinite z = true) :
    Scalar.sum zs = real (zs.map toReal).sum := by
  unfold Scalar.sum
  rw [zero_eq, foldl_add_eq zs 0 h, zero_add]

theorem sum_map_real (xs : List ℝ) : Scalar.sum (xs.map real) = real xs.sum := by
  have hfinite : ∀ z ∈ xs.map real, Scalar.isFinite z = true := by
    simp [isFinite_iff]
  rw [sum_eq hfinite, List.map_map]
  exact congrArg (fun ys => real ys.sum) (List.map_id xs)

instance : Std.Commutative (α := Exact) (· + ·) where
  comm x y := by
    change add x y = add y x
    cases x <;> cases y <;> simp [add, add_comm]

instance : Std.Associative (α := Exact) (· + ·) where
  assoc x y z := by
    change add (add x y) z = add x (add y z)
    cases x <;> cases y <;> cases z <;> simp [add, add_assoc]

/-- The sum of some numbers, whatever their order and whether or not they are finite. -/
noncomputable def total (zs : Multiset Exact) : Exact := zs.fold (fun x y : Exact => x + y) 0

theorem sum_eq_total (zs : List Exact) : Scalar.sum zs = total zs := (Multiset.coe_fold_l _ _ _).symm

/-- Nothing but an exact number itself is equal to it in the total order. -/
theorem totalEq_iff {z w : Exact} : Scalar.totalEq z w = true ↔ z = w := by
  unfold Scalar.totalEq
  rw [Bool.or_eq_true, Bool.and_eq_true, isNaN_iff, isNaN_iff, beq_iff]
  constructor
  · rintro (⟨heq, _⟩ | ⟨rfl, rfl⟩)
    · exact heq
    · rfl
  · rintro rfl
    by_cases hz : z = nan
    · exact .inr ⟨hz, hz⟩
    · exact .inl ⟨rfl, hz⟩

theorem log_real (hx : 0 < x) : Scalar.log (real x) = real (Real.log x) := by
  change (if 0 < x then real (Real.log x / Real.log (Real.exp 1)) else _) = _
  rw [if_pos hx, Real.log_exp, div_one]

theorem log2_real (hx : 0 < x) : Scalar.log2 (real x) = real (Real.logb 2 x) := by
  change (if 0 < x then real (Real.log x / Real.log 2) else _) = _
  rw [if_pos hx]
  rfl

theorem max_real : Scalar.max (real x) (real y) = real (max x y) := by
  have hnumber : Scalar.isNaN (real x) ≠ true := by simp
  unfold Scalar.max
  rw [if_neg hnumber]
  by_cases h : x < y
  · rw [if_pos (real_lt.mpr h), max_eq_right h.le]
  · rw [if_neg (mt real_lt.mp h), max_eq_left (not_lt.mp h)]

private theorem isNegative_ln2 : Binary.isNegative 0.6931471805599453 = false := by
  decide +kernel

private theorem ofFloat?_ln2 : Binary.ofFloat? 0.6931471805599453 = some ⟨6243314768165359, -53⟩ := by
  decide +kernel

/-- The double that stands for the logarithm of two. -/
theorem ln2_eq : (Scalar.ln2 : Exact) = real (6243314768165359 * 2 ^ (-53 : ℤ)) := by
  change ofFloat 0.6931471805599453 = _
  unfold ofFloat
  rw [ofFloat?_ln2, isNegative_ln2]
  simp

theorem exists_ln2 : ∃ y, 0 < y ∧ (Scalar.ln2 : Exact) = real y :=
  ⟨_, by positivity, ln2_eq⟩

/-- It is the nearest one: the logarithm is not further away than half the distance of two doubles. -/
theorem ln2_near : |6243314768165359 * 2 ^ (-53 : ℤ) - Real.log 2| ≤ (1 / 2) ^ 54 := by
  have hhalf : |(1 / 2 : ℝ)| = 1 / 2 := abs_of_pos (by norm_num)
  have hlog : Real.log (1 - 1 / 2) = -Real.log 2 := by
    rw [← Real.log_inv]
    norm_num
  -- so many terms of the series for `log (1 - x)` that what is left is below a quarter of the bound
  have hseries := Real.abs_log_sub_add_sum_range_le (by rw [hhalf]; norm_num) 56
  rw [hlog, hhalf, abs_le] at hseries
  norm_num [Finset.sum_range_succ] at hseries
  rw [abs_le]
  constructor <;> norm_num <;> linarith

end Exact

end InfoFlow
