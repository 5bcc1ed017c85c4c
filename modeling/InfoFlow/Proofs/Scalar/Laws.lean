import InfoFlow.Scalar.Basic

namespace InfoFlow

/-- A number that nothing is below: negative infinity, or a NaN. -/
def Scalar.isBottom {α : Type} [Scalar α] (x : α) : Bool := isNaN x || x == -infinity

/-- Arithmetic in which infinities and NaNs absorb finite numbers, and which never gets the sign of a
sum, product, quotient or difference wrong. Nothing is said about how results are rounded. -/
class LawfulScalar (α : Type) [Scalar α] : Prop where
  negInfinity_beq_self : ((-Scalar.infinity : α) == -Scalar.infinity) = true
  isFinite_of_add {x y : α} :
    Scalar.isFinite (x + y) = true → Scalar.isFinite x = true ∧ Scalar.isFinite y = true
  sub_self_beq {x : α} : Scalar.isFinite x = true → (x - x == 0) = true
  isBottom_sub {x y : α} : (x == -Scalar.infinity) = true → Scalar.isBottom (x - y) = true
  not_lt_of_isBottom {x y : α} : Scalar.isBottom y = true → ¬ x < y
  not_zero_le_of_isBottom {y : α} : Scalar.isBottom y = true → ¬ 0 ≤ y
  pos_of_lt {x y : α} : x < y → ¬ x < 0 → 0 < y
  not_neg_zero : ¬ (0 : α) < 0
  not_neg_add {x y : α} : ¬ x < 0 → ¬ y < 0 → ¬ x + y < 0
  not_neg_mul {x y : α} : ¬ x < 0 → ¬ y < 0 → ¬ x * y < 0
  not_neg_sub {x y : α} : ¬ x < y → ¬ x - y < 0
  not_neg_ratio (a b : Nat) : ¬ (Scalar.ofNat a / Scalar.ofNat b : α) < 0

/-- What the exponential function does at the ends of its domain and at zero. -/
class LawfulExp (α : Type) [Scalar α] : Prop where
  not_neg_exp (x : α) : ¬ Scalar.exp x < 0
  not_pos_exp_of_isBottom {x : α} : Scalar.isBottom x = true → ¬ 0 < Scalar.exp x
  pos_exp_of_beq_zero {x : α} : (x == 0) = true → 0 < Scalar.exp x

namespace Scalar

variable {α : Type} [Scalar α]

theorem isFinite_iff {x : α} :
    isFinite x = true ↔ isNaN x = false ∧ (x == infinity) = false ∧ (x == -infinity) = false := by
  simp [isFinite, isInfinite]

theorem not_isFinite_of_beq_negInfinity {x : α} (hx : (x == -infinity) = true) :
    isFinite x = false := by
  simp [isFinite, isInfinite, hx]

variable [LawfulScalar α]

theorem isFinite_negInfinity : isFinite (-infinity : α) = false :=
  not_isFinite_of_beq_negInfinity LawfulScalar.negInfinity_beq_self

private theorem isFinite_of_foldl_add (xs : List α) (start : α)
    (hsum : isFinite (xs.foldl (· + ·) start) = true) :
    isFinite start = true ∧ ∀ x ∈ xs, isFinite x = true := by
  induction xs generalizing start with
  | nil => exact ⟨hsum, by simp⟩
  | cons x xs ih =>
    obtain ⟨hhead, htail⟩ := ih (start + x) hsum
    obtain ⟨hstart, hx⟩ := LawfulScalar.isFinite_of_add hhead
    exact ⟨hstart, by simpa [hx] using htail⟩

/-- A finite sum has finite terms only. -/
theorem isFinite_of_mem_sum {xs : List α} (hsum : isFinite (sum xs) = true) {x : α}
    (hx : x ∈ xs) : isFinite x = true :=
  (isFinite_of_foldl_add xs 0 hsum).2 x hx

private theorem not_neg_foldl_add (xs : List α) (start : α) (hstart : ¬ start < 0)
    (hxs : ∀ x ∈ xs, ¬ x < 0) : ¬ xs.foldl (· + ·) start < 0 := by
  induction xs generalizing start with
  | nil => exact hstart
  | cons x xs ih =>
    refine ih (start + x) ?_ fun y hy => hxs y (List.mem_cons_of_mem x hy)
    exact LawfulScalar.not_neg_add hstart (hxs x List.mem_cons_self)

theorem not_neg_sum {xs : List α} (hxs : ∀ x ∈ xs, ¬ x < 0) : ¬ sum xs < 0 :=
  not_neg_foldl_add xs 0 LawfulScalar.not_neg_zero hxs

omit [LawfulScalar α] in
theorem max_eq_or (x y : α) : max x y = x ∨ max x y = y := by
  unfold max
  split
  · exact .inr rfl
  · split
    · exact .inr rfl
    · exact .inl rfl

omit [LawfulScalar α] in
/-- The largest of some numbers is one of them, or what the search started from. -/
theorem foldl_max_mem (xs : List α) (start : α) :
    xs.foldl max start = start ∨ xs.foldl max start ∈ xs := by
  induction xs generalizing start with
  | nil => exact .inl rfl
  | cons x xs ih =>
    rw [List.foldl_cons]
    rcases ih (max start x) with hstart | hmem
    · rw [hstart]
      rcases max_eq_or start x with h | h
      · exact .inl h
      · exact .inr (by simp [h])
    · exact .inr (List.mem_cons_of_mem x hmem)

end Scalar

end InfoFlow
