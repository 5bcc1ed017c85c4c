import InfoFlow.Distribution.Density
import InfoFlow.Proofs.Scalar.Halving
import InfoFlow.Proofs.Scalar.Quotients

namespace InfoFlow

open RealValued (toReal)

variable {α : Type} [Scalar α] [RealValued α]

/-- Finite, and up to `2 ^ 50` from zero. -/
structure Scalar.IsModest (x : α) : Prop where
  isFinite : Scalar.isFinite x = true
  abs_toReal_le : |toReal x| ≤ 2 ^ 50

theorem Scalar.IsModest.of_between [LawfulOrder α] [LawfulBounds α] [LawfulReal α] {x y z : α}
    (hx : IsModest x) (hz : IsModest z) (hxy : x ≤ y) (hyz : y ≤ z) : IsModest y := by
  have hy : Scalar.isFinite y = true := isFinite_of_between hxy hyz hx.isFinite hz.isFinite
  have hlow := (abs_le.mp hx.abs_toReal_le).1
  have hhigh := (abs_le.mp hz.abs_toReal_le).2
  rw [LawfulReal.le_iff_toReal hx.isFinite hy] at hxy
  rw [LawfulReal.le_iff_toReal hy hz.isFinite] at hyz
  exact ⟨hy, abs_le.mpr ⟨hlow.trans hxy, hyz.trans hhigh⟩⟩

theorem Scalar.IsModest.of_abs_lt [LawfulOrder α] [LawfulReal α] [LawfulQuotients α] {x : α}
    (hx : Scalar.isFinite x = true) (hlt : Scalar.abs x < Scalar.ofNat (2 ^ 50)) : IsModest x := by
  rw [lt_iff_toReal (LawfulQuotients.isFinite_abs hx) (isFinite_ofNat_word (by norm_num)),
    LawfulReal.toReal_abs hx, toReal_ofNat (by norm_num)] at hlt
  exact ⟨hx, by exact_mod_cast hlt.le⟩

namespace Distribution

section Bisection

/-- An interval around the least of some targets: its upper end is not below them, and its lower end is not
above any. -/
structure IsAround (isBelow : α → Bool) (IsTarget : α → Prop) (lower upper lo hi : α) : Prop where
  lower_le : lower ≤ lo
  le : lo ≤ hi
  le_upper : hi ≤ upper
  reached : isBelow hi = false
  le_target {x : α} : IsTarget x → lo ≤ x

variable [LawfulOrder α] [LawfulBounds α] [LawfulReal α] [LawfulHalving α] {isBelow : α → Bool}
  {IsTarget : α → Prop} {lower upper lo hi : α} (hlower : Scalar.IsModest lower)
  (hupper : Scalar.IsModest upper)
  (hbelow : ∀ x y, Scalar.isFinite x = true → isBelow x = true → IsTarget y → x ≤ y)

include hlower hupper

omit [LawfulHalving α] in
theorem IsAround.isModest (h : IsAround isBelow IsTarget lower upper lo hi) :
    Scalar.IsModest lo ∧ Scalar.IsModest hi :=
  ⟨hlower.of_between hupper h.lower_le (LawfulOrder.le_trans h.le h.le_upper),
    hlower.of_between hupper (LawfulOrder.le_trans h.lower_le h.le) h.le_upper⟩

include hbelow

/-- A halving keeps one half, whose length is half of what it was up to rounding. -/
theorem IsAround.halve (h : IsAround isBelow IsTarget lower upper lo hi) :
    (isBelow (0.5 * (lo + hi)) = true → IsAround isBelow IsTarget lower upper (0.5 * (lo + hi)) hi ∧
      toReal hi - toReal (0.5 * (lo + hi)) ≤ (toReal hi - toReal lo) / 2 + 1 / 4) ∧
    (isBelow (0.5 * (lo + hi)) = false → IsAround isBelow IsTarget lower upper lo (0.5 * (lo + hi)) ∧
      toReal (0.5 * (lo + hi)) - toReal lo ≤ (toReal hi - toReal lo) / 2 + 1 / 4) := by
  obtain ⟨hlo, hhi⟩ := h.isModest hlower hupper
  have hle := (LawfulReal.le_iff_toReal hlo.isFinite hhi.isFinite).mp h.le
  have hfinite := LawfulHalving.isFinite_midpoint hlo.isFinite hhi.isFinite hlo.abs_toReal_le
    hhi.abs_toReal_le
  obtain ⟨hlow, hhigh, herror⟩ := LawfulHalving.toReal_midpoint hlo.isFinite hhi.isFinite
    hlo.abs_toReal_le hhi.abs_toReal_le hle
  have hlow' := (LawfulReal.le_iff_toReal hlo.isFinite hfinite).mpr hlow
  have hhigh' := (LawfulReal.le_iff_toReal hfinite hhi.isFinite).mpr hhigh
  obtain ⟨herrorlow, herrorhigh⟩ := abs_le.mp herror
  constructor
  · intro hmid
    refine ⟨⟨LawfulOrder.le_trans h.lower_le hlow', hhigh', h.le_upper, h.reached, fun htarget => ?_⟩,
      by linarith⟩
    exact hbelow _ _ hfinite hmid htarget
  · intro hmid
    exact ⟨⟨h.lower_le, hlow', LawfulOrder.le_trans hhigh' h.le_upper, hmid, h.le_target⟩, by linarith⟩

/-- Bisection ends with an interval around the targets that is shorter than 1, whether it stops early or goes
through all halvings. -/
theorem bisect_spec {n : ℕ} (h : IsAround isBelow IsTarget lower upper lo hi)
    (hwidth : toReal hi - toReal lo ≤ 1 / 2 + 2 ^ n / 4) :
    ∃ lo', IsAround isBelow IsTarget lower upper lo' (bisect isBelow n lo hi) ∧
      toReal (bisect isBelow n lo hi) - toReal lo' < 1 := by
  induction n generalizing lo hi with
  | zero =>
    refine ⟨lo, h, ?_⟩
    rw [bisect]
    norm_num at hwidth
    linarith
  | succ n ih =>
    have hhalf : (toReal hi - toReal lo) / 2 + 1 / 4 ≤ 1 / 2 + 2 ^ n / 4 := by
      rw [pow_succ] at hwidth
      linarith
    obtain ⟨hright, hleft⟩ := h.halve hlower hupper hbelow
    rw [bisect]
    split
    case isTrue hclose =>
      obtain ⟨hlo, hhi⟩ := h.isModest hlower hupper
      have hshort := LawfulHalving.sub_le_of_isWithinSteps hlo.isFinite hhi.isFinite hlo.abs_toReal_le
        hhi.abs_toReal_le hclose
      exact ⟨lo, h, by linarith⟩
    case isFalse =>
      dsimp only
      split
      case isTrue hmid =>
        obtain ⟨haround, hle⟩ := hright hmid
        exact ih haround (hle.trans hhalf)
      case isFalse hmid =>
        obtain ⟨haround, hle⟩ := hleft (Bool.eq_false_of_not_eq_true hmid)
        exact ih haround (hle.trans hhalf)

end Bisection

section Widening

variable [LawfulReal α] [LawfulHalving α]

/-- Doubling a power of two passes a number below `2 ^ 50` by then. -/
theorem widen_spec {isWrong : α → Bool} {x b : α} {j n : ℕ} (hx : Scalar.isFinite x = true)
    (hlt : toReal x < 2 ^ 50)
    (hright : ∀ b, Scalar.isFinite b = true → x ≤ b → isWrong b = false)
    (hb : Scalar.isFinite b = true) (hvalue : toReal b = 2 ^ j) (hj : j ≤ 50) (hn : 50 ≤ j + n) :
    Scalar.isFinite (widen isWrong n b) = true ∧ isWrong (widen isWrong n b) = false ∧
      1 ≤ toReal (widen isWrong n b) ∧ toReal (widen isWrong n b) ≤ 2 ^ 50 := by
  have hone : (1 : ℝ) ≤ 2 ^ j := one_le_pow₀ one_le_two
  have hle : (2 : ℝ) ^ j ≤ 2 ^ 50 := pow_le_pow_right₀ one_le_two hj
  have hlast (h : j = 50) : isWrong b = false := by
    refine hright b hb ((LawfulReal.le_iff_toReal hx hb).mpr ?_)
    rw [hvalue, h]
    exact hlt.le
  induction n generalizing b j with
  | zero =>
    rw [widen, hvalue]
    exact ⟨hb, hlast (by omega), hone, hle⟩
  | succ n ih =>
    rw [widen, hb, Bool.true_and]
    split
    case isTrue hwrong =>
      have hroom : j < 50 := lt_of_le_of_ne hj fun h => by simp [hlast h] at hwrong
      obtain ⟨hfinite, hdouble⟩ := LawfulHalving.toReal_double hroom hb hvalue
      refine ih hfinite hdouble hroom (by omega) (one_le_pow₀ one_le_two)
        (pow_le_pow_right₀ one_le_two hroom) fun h => ?_
      refine hright _ hfinite ((LawfulReal.le_iff_toReal hx hfinite).mpr ?_)
      rw [hdouble, h]
      exact hlt.le
    case isFalse hright =>
      rw [hvalue]
      exact ⟨hb, Bool.eq_false_of_not_eq_true hright, hone, hle⟩

end Widening

end Distribution

end InfoFlow
