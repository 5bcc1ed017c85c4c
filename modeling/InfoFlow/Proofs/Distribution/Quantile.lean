import InfoFlow.Proofs.Distribution.Bisection
import InfoFlow.Proofs.Distribution.PointMass

namespace InfoFlow

open RealValued (toReal)

variable {α : Type} [Scalar α] [RealValued α]

namespace Distribution

section Supports

variable [LawfulOrder α] [LawfulBounds α] [LawfulReal α] [LawfulWords α] {f : Family}
  {values : List α} {weights : Option (List α)} {d : Distribution α}

/-- The support of a counting distribution: whole numbers from a first one on, which is 0 or 1 if there is
no last one. -/
structure IsCounting (s : Support α) : Prop where
  isDiscrete : s.isDiscrete = true
  isFinite_lower : Scalar.isFinite s.lower = true
  isInteger_lower : Scalar.isInteger s.lower = true
  lower_le_upper : s.lower ≤ s.upper
  lower_eq : Scalar.isInfinite s.upper = true → s.lower = 0 ∨ s.lower = 1

omit [RealValued α] [LawfulOrder α] [LawfulBounds α] [LawfulReal α] [LawfulWords α] in
theorem isInfinite_of_isFinite {x : α} (hx : Scalar.isFinite x = true) :
    Scalar.isInfinite x = false := by
  rw [Scalar.isFinite, Bool.and_eq_true, Bool.not_eq_true', Bool.not_eq_true'] at hx
  exact hx.2

omit [RealValued α] [LawfulOrder α] [LawfulBounds α] [LawfulReal α] [LawfulWords α] in
/-- A uniform distribution on whole numbers is built from two bounds that are in order. -/
theorem exists_of_build_discreteUniform {lower upper : Int64}
    (h : build f values weights = .ok (.discreteUniform lower upper)) : ∃ x y : α,
      Scalar.isFinite x = true ∧ Scalar.isFinite y = true ∧ ¬ y < x ∧
      lower = Scalar.toInt64 x ∧ upper = Scalar.toInt64 y := by
  obtain ⟨hlength, _, hchecked⟩ := build_eq_ok_iff.mp h
  obtain rfl : f = .discreteUniform := (family_of_ofChecked hchecked).symm
  obtain ⟨x, y, rfl⟩ := List.length_eq_two.mp hlength
  have hfinite {z : α} (hz : z ∈ [x, y]) : Scalar.isFinite z = true :=
    isFinite_of_build h (by decide) hz
  simp only [ofChecked] at hchecked
  split at hchecked
  case isTrue => cases hchecked
  case isFalse hle =>
    cases hchecked
    exact ⟨x, y, hfinite (by simp), hfinite (by simp), hle, rfl, rfl⟩

omit [LawfulOrder α] [LawfulBounds α] [LawfulWords α] in
theorem isInteger_ofNat {n : ℕ} (hn : n ≤ 2 ^ 53) : Scalar.isInteger (Scalar.ofNat n : α) = true := by
  rw [LawfulReal.isInteger_iff_toReal (Scalar.isFinite_ofNat_word (hn.trans (by norm_num))),
    Scalar.toReal_ofNat hn]
  exact ⟨n, rfl⟩

theorem isCounting_support (h : build f values weights = .ok d) (hd : d.isDiscrete = true)
    (hconstant : ∀ x, d = .constant x → Scalar.isInteger x = true) : IsCounting d.support := by
  have hzero : Scalar.isFinite (0 : α) = true := Scalar.isFinite_ofNat_word (Nat.zero_le _)
  have hone : Scalar.isFinite (1 : α) = true := Scalar.isFinite_ofNat_word (by norm_num)
  have hzeroWhole : Scalar.isInteger (0 : α) = true := isInteger_ofNat (Nat.zero_le _)
  have honeWhole : Scalar.isInteger (1 : α) = true := isInteger_ofNat (by norm_num)
  have hfrom (n : ℕ) : (0 : α) ≤ Scalar.ofNat n := Scalar.ofNat_mono (Nat.zero_le n)
  have hnoEnd {x : α} (hx : Scalar.isFinite x = true) : x ≤ Scalar.infinity :=
    LawfulBounds.le_infinity (Scalar.isFinite_iff.mp hx).1
  obtain ⟨_, _, hchecked⟩ := build_eq_ok_iff.mp h
  cases d with
  | bernoulli p => exact ⟨rfl, hzero, hzeroWhole, hfrom 1, fun _ => .inl rfl⟩
  | betaBinomial n a b => exact ⟨rfl, hzero, hzeroWhole, hfrom n.toNat, fun _ => .inl rfl⟩
  | binomial n p => exact ⟨rfl, hzero, hzeroWhole, hfrom n.toNat, fun _ => .inl rfl⟩
  | poisson mean => exact ⟨rfl, hzero, hzeroWhole, hnoEnd hzero, fun _ => .inl rfl⟩
  | categorical ws => exact ⟨rfl, hzero, hzeroWhole, hfrom _, fun _ => .inl rfl⟩
  | geometric p => exact ⟨rfl, hone, honeWhole, hnoEnd hone, fun _ => .inr rfl⟩
  | discreteUniform lower upper =>
    obtain ⟨x, y, hx, hy, hle, rfl, rfl⟩ := exists_of_build_discreteUniform h
    have hfinite (z : α) : Scalar.isFinite (Scalar.ofInt64 (Scalar.toInt64 z) : α) = true :=
      LawfulWords.isFinite_ofInt64 z
    refine ⟨rfl, hfinite x, LawfulWords.isInteger_ofInt64 x, ?_, fun hinfinite => ?_⟩
    · exact Scalar.le_of_not_lt (Scalar.isFinite_iff.mp (hfinite y)).1
        (Scalar.isFinite_iff.mp (hfinite x)).1 (LawfulWords.not_ofInt64_lt hx hy hle)
    · cases (isInfinite_of_isFinite (hfinite y)).symm.trans hinfinite
  | constant x =>
    have hf : f = .constant := (family_of_ofChecked hchecked).symm
    subst hf
    obtain ⟨y, heq, hfinite⟩ := exists_of_build_constant h
    cases heq
    refine ⟨rfl, hfinite, hconstant x rfl, Scalar.le_refl (Scalar.isFinite_iff.mp hfinite).1,
      fun hinfinite => ?_⟩
    cases (isInfinite_of_isFinite hfinite).symm.trans hinfinite
  | beta | cauchy | exponential | gamma | laplace | normal | studentT | truncatedNormal | uniform =>
    cases hd

end Supports

/-- A whole number distribution whose distribution function climbs to `q` in steps, at moderate numbers. -/
structure IsStaircase (d : Distribution α) (q : α) : Prop where
  isDiscrete : d.isDiscrete = true
  isInteger_constant {x : α} : d = .constant x → Scalar.isInteger x = true
  abs_lower_lt : Scalar.abs d.support.lower < Scalar.ofNat (2 ^ 50)
  abs_upper_lt : Scalar.isFinite d.support.upper = true →
    Scalar.abs d.support.upper < Scalar.ofNat (2 ^ 50)
  mono {x y : α} : Scalar.isFinite x = true → Scalar.isFinite y = true → x ≤ y → d.cdf x ≤ d.cdf y
  cdf_floor {x : α} : Scalar.isFinite x = true → (d.cdf x == d.cdf (Scalar.floor x)) = true
  exists_reached : Scalar.isInfinite d.support.upper = true → ∃ k, Scalar.isFinite k = true ∧
    Scalar.isInteger k = true ∧ k < Scalar.ofNat (2 ^ 50) ∧ q ≤ d.cdf k

/-- The least whole number of the support where the distribution function reaches `q`. -/
structure IsQuantile (d : Distribution α) (q k : α) : Prop where
  contains : d.support.contains k = true
  reached : q ≤ d.cdf k
  least {j : α} : d.support.contains j = true → q ≤ d.cdf j → k ≤ j

section Quantiles

variable [LawfulOrder α] [LawfulBounds α] [LawfulReal α] {d : Distribution α} {q : α}

omit [RealValued α] [LawfulBounds α] [LawfulReal α] in
theorem cdf_upper (hfinite : Scalar.isFinite d.support.upper = true)
    (hle : d.support.lower ≤ d.support.upper) : d.cdf d.support.upper = 1 := by
  have hnumber := (Scalar.isFinite_iff.mp hfinite).1
  unfold cdf
  rw [if_neg (by simp [hnumber]), if_neg fun hlt => Scalar.not_le_of_lt hlt hle,
    if_pos (Scalar.le_refl hnumber)]

variable [LawfulHalving α] [LawfulQuotients α]

omit [LawfulBounds α] in
/-- Without a last number, doubling ends at a moderate number that reaches `q`, and above the first one. -/
theorem widen_lower_spec (hs : IsCounting d.support) (hd : d.IsStaircase q)
    (hupper : Scalar.isInfinite d.support.upper = true) : ∃ hi,
      widen (fun b => decide (d.cdf b < q)) doublings (Scalar.max (Scalar.abs d.support.lower) 1) = hi ∧
      Scalar.IsModest hi ∧ d.support.lower ≤ hi ∧ ¬ d.cdf hi < q := by
  obtain ⟨k, hk, -, hklt, hreached⟩ := hd.exists_reached hupper
  rw [Scalar.lt_iff_toReal hk (Scalar.isFinite_ofNat_word (by norm_num)),
    Scalar.toReal_ofNat (by norm_num)] at hklt
  have hright (b : α) (hb : Scalar.isFinite b = true) (hkb : k ≤ b) :
      decide (d.cdf b < q) = false :=
    decide_eq_false fun hbelow => Scalar.not_le_of_lt hbelow
      (LawfulOrder.le_trans hreached (hd.mono hk hb hkb))
  have hone : Scalar.isFinite (1 : α) = true := Scalar.isFinite_ofNat_word (by norm_num)
  have hlower : 0 ≤ toReal d.support.lower ∧ toReal d.support.lower ≤ 1 := by
    rcases hs.lower_eq hupper with h | h <;> rw [h]
    · rw [Scalar.toReal_zero]
      exact ⟨le_rfl, zero_le_one⟩
    · rw [Scalar.toReal_one]
      exact ⟨zero_le_one, le_rfl⟩
  obtain ⟨hstart, hvalue⟩ := Scalar.toReal_max (LawfulQuotients.isFinite_abs hs.isFinite_lower) hone
  rw [LawfulReal.toReal_abs hs.isFinite_lower, abs_of_nonneg hlower.1, Scalar.toReal_one,
    max_eq_right hlower.2, ← pow_zero 2] at hvalue
  obtain ⟨hfinite, hnotBelow, hge, hsmall⟩ := widen_spec (n := doublings) hk
    (by exact_mod_cast hklt) hright hstart hvalue (by norm_num) (by decide)
  refine ⟨_, rfl, ⟨hfinite, ?_⟩, ?_, of_decide_eq_false hnotBelow⟩
  · rwa [abs_of_nonneg (zero_le_one.trans hge)]
  · rw [LawfulReal.le_iff_toReal hs.isFinite_lower hfinite]
    exact hlower.2.trans hge

/-- The ends that bisection starts from: the first number of the support, and a number that reaches `q`. -/
theorem bracket_spec (hs : IsCounting d.support) (hd : d.IsStaircase q) (hlt : q < 1) :
    ∃ hi, d.bracket q = (d.support.lower, hi) ∧ Scalar.IsModest hi ∧ d.support.lower ≤ hi ∧
      hi ≤ d.support.upper ∧ ¬ d.cdf hi < q := by
  have hlower : Scalar.isInfinite d.support.lower = false := isInfinite_of_isFinite hs.isFinite_lower
  have hle := hs.lower_le_upper
  unfold bracket
  simp only [hlower, Bool.false_eq_true, if_false]
  by_cases hupper : Scalar.isInfinite d.support.upper = true
  · obtain ⟨hi, hwiden, hhi, hlowerhi, hnotBelow⟩ := widen_lower_spec hs hd hupper
    refine ⟨hi, by rw [if_pos hupper, hwiden], hhi, hlowerhi, ?_, hnotBelow⟩
    rcases Bool.or_eq_true_iff.mp hupper with h | h
    · exact LawfulOrder.le_trans (LawfulBounds.le_infinity (Scalar.isFinite_iff.mp hhi.isFinite).1)
        (LawfulOrder.beq_iff_le_le.mp h).2
    · exact absurd (LawfulOrder.le_trans hle (LawfulOrder.beq_iff_le_le.mp h).1)
        (Scalar.not_le_of_lt (Scalar.negInfinity_lt hs.isFinite_lower))
  · have hfinite : Scalar.isFinite d.support.upper = true := by
      simp [Scalar.isFinite, (LawfulBounds.isNaN_of_le hle).2, hupper]
    refine ⟨d.support.upper, by rw [if_neg hupper], .of_abs_lt hfinite (hd.abs_upper_lt hfinite), hle,
      Scalar.le_refl (Scalar.isFinite_iff.mp hfinite).1, ?_⟩
    rw [cdf_upper hfinite hle]
    exact Scalar.lt_asymm hlt

/-- From the first number of the support on, and not below `q`. -/
def HasReached (d : Distribution α) (q y : α) : Prop := d.support.lower ≤ y ∧ q ≤ d.cdf y

omit [RealValued α] [LawfulReal α] [LawfulHalving α] [LawfulQuotients α] in
/-- What has reached `q` is not below a number that has not. -/
theorem le_of_hasReached (hs : IsCounting d.support) (hd : d.IsStaircase q) {x y : α}
    (hx : Scalar.isFinite x = true) (hxq : d.cdf x < q) (hy : d.HasReached q y) : x ≤ y := by
  obtain ⟨hlowery, hreached⟩ := hy
  by_contra hnot
  have hyx := Scalar.le_of_lt (Scalar.lt_of_not_le (Scalar.isFinite_iff.mp hx).1
    (LawfulBounds.isNaN_of_le hlowery).2 hnot)
  have hfinite := Scalar.isFinite_of_between hlowery hyx hs.isFinite_lower hx
  exact Scalar.not_le_of_lt hxq (LawfulOrder.le_trans hreached (hd.mono hfinite hx hyx))

/-- Bisection ends with an interval that is shorter than 1 around the first number that has reached `q`. -/
theorem exists_isAround (hs : IsCounting d.support) (hd : d.IsStaircase q) (hlt : q < 1) :
    ∃ lo hi, d.bracket q = (d.support.lower, hi) ∧ hi ≤ d.support.upper ∧ Scalar.IsModest lo ∧
      Scalar.IsModest (bisect (fun x => decide (d.cdf x < q)) halvings d.support.lower hi) ∧
      IsAround (fun x => decide (d.cdf x < q)) (d.HasReached q) d.support.lower hi lo
        (bisect (fun x => decide (d.cdf x < q)) halvings d.support.lower hi) ∧
      toReal (bisect (fun x => decide (d.cdf x < q)) halvings d.support.lower hi) - toReal lo < 1 := by
  obtain ⟨hi, hbracket, hhi, hlowerhi, hhiupper, hnotBelow⟩ := bracket_spec hs hd hlt
  have hlower : Scalar.IsModest d.support.lower := .of_abs_lt hs.isFinite_lower hd.abs_lower_lt
  have hbelow (x y : α) (hx : Scalar.isFinite x = true) (hxq : decide (d.cdf x < q) = true)
      (hy : d.HasReached q y) : x ≤ y :=
    le_of_hasReached hs hd hx (of_decide_eq_true hxq) hy
  have haround : IsAround (fun x => decide (d.cdf x < q)) (d.HasReached q) d.support.lower hi
      d.support.lower hi :=
    ⟨Scalar.le_refl (Scalar.isFinite_iff.mp hs.isFinite_lower).1, hlowerhi,
      Scalar.le_refl (Scalar.isFinite_iff.mp hhi.isFinite).1, decide_eq_false hnotBelow, And.left⟩
  have hwidth : toReal hi - toReal d.support.lower ≤ 1 / 2 + 2 ^ halvings / 4 := by
    have hlow := (abs_le.mp hlower.abs_toReal_le).1
    have hhigh := (abs_le.mp hhi.abs_toReal_le).2
    have hhalvings : halvings = 200 := rfl
    rw [hhalvings]
    norm_num at hlow hhigh ⊢
    linarith
  obtain ⟨lo, hend, hshort⟩ := bisect_spec hlower hhi hbelow haround hwidth
  obtain ⟨hlo, hend'⟩ := hend.isModest hlower hhi
  exact ⟨lo, hi, hbracket, hhiupper, hlo, hend', hend, hshort⟩

omit [LawfulHalving α] [LawfulQuotients α] in
/-- In an interval that is shorter than 1, the floor of the upper end is the only whole number that may be
the quantile. -/
theorem isQuantile_floor [LawfulFloor α] [LawfulIntegers α] {lo hi r : α} (hs : IsCounting d.support)
    (hd : d.IsStaircase q) (hq : Scalar.isNaN q = false) (hhi : hi ≤ d.support.upper)
    (hlo : Scalar.isFinite lo = true) (hr : Scalar.isFinite r = true)
    (haround : IsAround (fun x => decide (d.cdf x < q)) (d.HasReached q) d.support.lower hi lo r)
    (hshort : toReal r - toReal lo < 1) : d.IsQuantile q (Scalar.floor r) := by
  have hfloor : Scalar.isFinite (Scalar.floor r) = true := LawfulIntegers.isFinite_floor hr
  have hlower := (LawfulReal.le_iff_toReal hs.isFinite_lower hr).mp
    (LawfulOrder.le_trans haround.lower_le haround.le)
  constructor
  case contains =>
    obtain ⟨i, hi⟩ := (LawfulReal.isInteger_iff_toReal hs.isFinite_lower).mp hs.isInteger_lower
    have hwhole : Scalar.isInteger (Scalar.floor r) = true :=
      (LawfulReal.isInteger_iff_toReal hfloor).mpr ⟨_, LawfulReal.toReal_floor hr⟩
    have hge : d.support.lower ≤ Scalar.floor r := by
      rw [LawfulReal.le_iff_toReal hs.isFinite_lower hfloor, LawfulReal.toReal_floor hr, hi]
      rw [hi] at hlower
      exact_mod_cast Int.le_floor.mpr hlower
    have hle := LawfulOrder.le_trans (LawfulFloor.floor_le hr) (LawfulOrder.le_trans haround.le_upper hhi)
    simp [Support.contains, hwhole, hge, hle]
  case reached =>
    have hself := hd.mono hr hr (Scalar.le_refl (Scalar.isFinite_iff.mp hr).1)
    have hreached := Scalar.le_of_not_lt (LawfulBounds.isNaN_of_le hself).1 hq
      (of_decide_eq_false haround.reached)
    exact LawfulOrder.le_trans hreached (LawfulOrder.beq_iff_le_le.mp (hd.cdf_floor hr)).1
  case least =>
    intro j hj hjq
    simp only [Support.contains, hs.isDiscrete, Bool.not_true, Bool.false_or, Bool.and_eq_true,
      decide_eq_true_iff] at hj
    obtain ⟨⟨hlowerj, -⟩, hwhole⟩ := hj
    have hloj := haround.le_target ⟨hlowerj, hjq⟩
    by_contra hnot
    have hjr := Scalar.le_of_lt (Scalar.lt_of_not_le (Scalar.isFinite_iff.mp hfloor).1
      (LawfulBounds.isNaN_of_le hlowerj).2 hnot)
    have hj := Scalar.isFinite_of_between hlowerj hjr hs.isFinite_lower hfloor
    obtain ⟨i, hi⟩ := (LawfulReal.isInteger_iff_toReal hj).mp hwhole
    rw [LawfulReal.le_iff_toReal hfloor hj, LawfulReal.toReal_floor hr, hi, Int.cast_le] at hnot
    rw [LawfulReal.le_iff_toReal hlo hj, hi] at hloj
    have hfloorLe := Int.floor_le (toReal r)
    have hlarge : (i : ℝ) + 1 ≤ ⌊toReal r⌋ := by exact_mod_cast Int.lt_of_not_ge hnot
    linarith

theorem isQuantile_of_isCounting [LawfulFloor α] [LawfulIntegers α] (hs : IsCounting d.support)
    (hd : d.IsStaircase q) (hpos : 0 < q) (hlt : q < 1) : d.IsQuantile q (d.quantile q) := by
  have hq : Scalar.isNaN q = false := (LawfulBounds.isNaN_of_le (Scalar.le_of_lt hpos)).2
  obtain ⟨lo, hi, hbracket, hhi, hlo, hend, haround, hshort⟩ := exists_isAround hs hd hlt
  have hfloor := isQuantile_floor hs hd hq hhi hlo.isFinite hend.isFinite haround hshort
  unfold quantile
  rw [if_neg (Scalar.not_le_of_lt hpos), if_neg (Scalar.not_le_of_lt hlt), hbracket]
  simp only [hd.isDiscrete, Bool.not_true, Bool.false_eq_true, if_false]
  rw [if_pos hfloor.reached]
  exact hfloor

/-- The quantile of a whole number distribution is the least number of its support that reaches `q`. -/
theorem isQuantile_quantile [LawfulFloor α] [LawfulIntegers α] [LawfulWords α] {f : Family}
    {values : List α} {weights : Option (List α)} (hbuild : build f values weights = .ok d)
    (hd : d.IsStaircase q) (hpos : 0 < q) (hlt : q < 1) : d.IsQuantile q (d.quantile q) :=
  isQuantile_of_isCounting (isCounting_support hbuild hd.isDiscrete fun _ hx => hd.isInteger_constant hx)
    hd hpos hlt

end Quantiles

section Uniform

variable {lower upper : Int64}

/-- The share of the whole numbers between two bounds that are not above a number. -/
noncomputable def uniformShare (lower upper : ℤ) (x : ℝ) : ℝ :=
  if x < lower then 0 else if upper ≤ x then 1 else (⌊x⌋ - lower + 1) / (upper - lower + 1)

theorem uniformShare_floor (lower upper : ℤ) (x : ℝ) :
    uniformShare lower upper ⌊x⌋ = uniformShare lower upper x := by
  unfold uniformShare
  simp only [Int.cast_lt, Int.cast_le, Int.floor_lt, Int.le_floor, Int.floor_intCast]

theorem uniformShare_mono {lower upper : ℤ} (h : lower ≤ upper) : Monotone (uniformShare lower upper) := by
  intro x y hxy
  have hwidth : (0 : ℝ) < upper - lower + 1 := by
    have hcast : (lower : ℝ) ≤ upper := by exact_mod_cast h
    linarith
  have hfloor : (⌊x⌋ : ℝ) ≤ ⌊y⌋ := by exact_mod_cast Int.floor_mono hxy
  unfold uniformShare
  by_cases hy : y < lower
  · rw [if_pos (hxy.trans_lt hy), if_pos hy]
  rw [if_neg hy]
  have hlow : (lower : ℝ) ≤ ⌊y⌋ := by exact_mod_cast Int.le_floor.mpr (not_lt.mp hy)
  have hnonneg : 0 ≤ ((⌊y⌋ : ℝ) - lower + 1) / (upper - lower + 1) := by
    apply div_nonneg <;> linarith
  by_cases hx : x < lower
  · rw [if_pos hx]
    split
    · exact zero_le_one
    · exact hnonneg
  rw [if_neg hx]
  by_cases hx' : (upper : ℝ) ≤ x
  · rw [if_pos hx', if_pos (hx'.trans hxy)]
  have hhigh : (⌊x⌋ : ℝ) ≤ upper := (Int.floor_le x).trans (not_le.mp hx').le
  rw [if_neg hx']
  split
  · rw [div_le_one hwidth]
    linarith
  · gcongr

theorem cdf_discreteUniform (x : ℝ) : (discreteUniform lower upper : Distribution Exact).cdf (.real x) =
    .real (uniformShare lower.toInt upper.toInt x) := by
  have hbound (w : Int64) : (Scalar.ofInt64 w : Exact) = .real w.toInt := Exact.ofInt_eq w.toInt
  have hsupport : (discreteUniform lower upper : Distribution Exact).support =
      ⟨.real lower.toInt, .real upper.toInt, true⟩ := by
    rw [← hbound, ← hbound]
    rfl
  have hnumber : Scalar.isNaN (Exact.real x) ≠ true := by simp
  unfold cdf uniformShare
  rw [hsupport, if_neg hnumber]
  simp only [Exact.real_lt, Exact.real_le]
  split
  case isTrue => exact Exact.zero_eq
  case isFalse hlow =>
    split
    case isTrue => exact Exact.one_eq
    case isFalse hhigh =>
      have hlow := Int.le_floor.mpr (not_lt.mp hlow)
      have hhigh := Int.floor_lt.mpr (not_le.mp hhigh)
      have hword : (Scalar.toInt64 (Exact.real ⌊x⌋)).toInt = ⌊x⌋ := by
        have hlower := lower.le_toInt
        have hupper := upper.toInt_lt
        rw [Exact.toInt_toInt64]
        exact Exact.toWord_intCast (hlower.trans hlow) (by omega)
      have hnotBelow : ¬ Scalar.toInt64 (Exact.real ⌊x⌋) < lower := by
        rw [Int64.lt_iff_toInt_lt, hword]
        omega
      have hnotAbove : ¬ upper ≤ Scalar.toInt64 (Exact.real ⌊x⌋) := by
        rw [Int64.le_iff_toInt_le, hword]
        omega
      have hwidth : (0 : ℝ) < upper.toInt - lower.toInt + 1 := by exact_mod_cast (by omega)
      have hle : ¬ 1 < ((⌊x⌋ : ℝ) - lower.toInt + 1) / (upper.toInt - lower.toInt + 1) := by
        have hcast : (⌊x⌋ : ℝ) ≤ upper.toInt := by exact_mod_cast hhigh.le
        rw [not_lt, div_le_one hwidth]
        linarith
      change DiscreteUniform.cdf lower upper (Scalar.toInt64 (Exact.real ⌊x⌋)) = _
      unfold DiscreteUniform.cdf
      rw [if_neg hnotBelow, if_neg hnotAbove]
      dsimp only
      rw [hbound, hbound, hbound, hword, Exact.one_eq, Exact.real_sub, Exact.real_sub, Exact.real_add,
        Exact.real_add, Exact.real_div hwidth.ne', if_neg (mt Exact.real_lt.mp hle)]

/-- In exact arithmetic, uniform distributions on whole numbers climb in steps. -/
theorem isStaircase_discreteUniform (hle : lower.toInt ≤ upper.toInt) (hlower : |lower.toInt| < 2 ^ 50)
    (hupper : |upper.toInt| < 2 ^ 50) (q : Exact) :
    (discreteUniform lower upper : Distribution Exact).IsStaircase q := by
  have hbound (w : Int64) : (Scalar.ofInt64 w : Exact) = .real w.toInt := Exact.ofInt_eq w.toInt
  have hsmall {w : Int64} (hw : |w.toInt| < 2 ^ 50) :
      Scalar.abs (Scalar.ofInt64 w : Exact) < Scalar.ofNat (2 ^ 50) := by
    rw [hbound, Exact.abs_real, Exact.ofNat_eq, Exact.real_lt]
    exact_mod_cast hw
  constructor
  case isDiscrete => rfl
  case isInteger_constant =>
    intro x hx
    cases hx
  case abs_lower_lt => exact hsmall hlower
  case abs_upper_lt => exact fun _ => hsmall hupper
  case mono =>
    intro x y hx hy hxy
    obtain ⟨x, rfl⟩ := Exact.isFinite_iff.mp hx
    obtain ⟨y, rfl⟩ := Exact.isFinite_iff.mp hy
    rw [cdf_discreteUniform, cdf_discreteUniform, Exact.real_le]
    exact uniformShare_mono hle (Exact.real_le.mp hxy)
  case cdf_floor =>
    intro x hx
    obtain ⟨x, rfl⟩ := Exact.isFinite_iff.mp hx
    rw [Exact.floor_real, cdf_discreteUniform, cdf_discreteUniform, uniformShare_floor, Exact.real_beq]
    exact decide_eq_true rfl
  case exists_reached =>
    intro hinfinite
    have hfinite : Scalar.isFinite (Scalar.ofInt64 upper : Exact) = true :=
      Exact.isFinite_iff.mpr ⟨_, hbound upper⟩
    cases (isInfinite_of_isFinite hfinite).symm.trans hinfinite

theorem contains_discreteUniform {x : Exact} :
    (discreteUniform lower upper : Distribution Exact).support.contains x = true ↔
      (.real lower.toInt ≤ x ∧ x ≤ .real upper.toInt) ∧ Scalar.isInteger x = true := by
  have hbound (w : Int64) : (Scalar.ofInt64 w : Exact) = .real w.toInt := Exact.ofInt_eq w.toInt
  change ((decide (Scalar.ofInt64 lower ≤ x) && decide (x ≤ Scalar.ofInt64 upper)) &&
    Scalar.isInteger x) = true ↔ _
  rw [hbound, hbound, Bool.and_eq_true, Bool.and_eq_true, decide_eq_true_iff, decide_eq_true_iff]

/-- A digit that is drawn uniformly has two machine words as bounds. -/
theorem build_tenDigits : ∃ lower upper : Int64, lower.toInt = 0 ∧ upper.toInt = 9 ∧
    build .discreteUniform [Exact.real 0, .real 9] none = .ok (.discreteUniform lower upper) := by
  have hword {i : ℤ} (hi : i.natAbs ≤ 9) : (Scalar.toInt64 (Exact.real i)).toInt = i := by
    rw [Exact.toInt_toInt64]
    exact Exact.toWord_intCast (by omega) (by omega)
  have hcheck (parameter : String) (i : ℤ) :
      checkLiteral .discreteUniform parameter (Exact.real i) = .ok () :=
    checkLiteral_bound_iff.mpr ⟨Exact.isFinite_iff.mpr ⟨i, rfl⟩, Exact.isInteger_intCast i⟩
  refine ⟨Scalar.toInt64 (Exact.real 0), Scalar.toInt64 (Exact.real 9), ?_, ?_, ?_⟩
  · exact_mod_cast hword (i := 0) (by decide)
  · exact_mod_cast hword (i := 9) (by decide)
  · refine build_eq_ok_iff.mpr ⟨rfl, fun _ => ?_, if_neg ?_⟩
    · refine List.forall_mem_cons.mpr ⟨?_, List.forall_mem_cons.mpr ⟨?_, by simp⟩⟩
      · exact_mod_cast hcheck "lower" 0
      · exact_mod_cast hcheck "upper" 9
    · rw [Exact.real_lt]
      norm_num

/-- Of ten digits, seven twentieths are reached at the fourth one. -/
theorem isQuantile_tenDigits : ∃ d : Distribution Exact,
    build .discreteUniform [.real 0, .real 9] none = .ok d ∧ d.IsStaircase (.real (7 / 20)) ∧
      (0 : Exact) < .real (7 / 20) ∧ Exact.real (7 / 20) < 1 ∧
      d.IsQuantile (.real (7 / 20)) (d.quantile (.real (7 / 20))) ∧
      d.quantile (.real (7 / 20)) = .real 3 := by
  obtain ⟨lower, upper, hzero, hnine, hbuild⟩ := build_tenDigits
  have hstairs : (discreteUniform lower upper : Distribution Exact).IsStaircase (.real (7 / 20)) :=
    isStaircase_discreteUniform (by omega) (by rw [hzero]; norm_num) (by rw [hnine]; norm_num) _
  have hpos : (0 : Exact) < .real (7 / 20) := Exact.zero_lt_iff.mpr (.inr ⟨_, rfl, by norm_num⟩)
  have hlt : Exact.real (7 / 20) < 1 := by
    rw [Exact.one_eq, Exact.real_lt]
    norm_num
  have hquantile := isQuantile_quantile hbuild hstairs hpos hlt
  refine ⟨_, hbuild, hstairs, hpos, hlt, hquantile, ?_⟩
  have hthree : (discreteUniform lower upper : Distribution Exact).quantile (.real (7 / 20)) ≤ .real 3 := by
    apply hquantile.least
    · rw [contains_discreteUniform, hzero, hnine]
      exact ⟨by norm_num, by exact_mod_cast Exact.isInteger_intCast 3⟩
    · rw [cdf_discreteUniform, hzero, hnine, Exact.real_le]
      norm_num [uniformShare]
  obtain ⟨⟨hge, _⟩, hwhole⟩ := contains_discreteUniform.mp hquantile.contains
  have hreached := hquantile.reached
  generalize (discreteUniform lower upper : Distribution Exact).quantile (.real (7 / 20)) = k at *
  obtain ⟨k, rfl⟩ := Exact.isFinite_iff.mp (Scalar.isFinite_of_between hge hthree
    (Exact.isFinite_iff.mpr ⟨_, rfl⟩) (Exact.isFinite_iff.mpr ⟨3, rfl⟩))
  obtain ⟨i, rfl⟩ := (Exact.isInteger_real k).mp hwhole
  rw [Exact.real_le] at hge hthree
  rw [cdf_discreteUniform, hzero, hnine, Exact.real_le] at hreached
  rw [hzero] at hge
  have hlow : 0 ≤ i := by exact_mod_cast hge
  have hhigh : i ≤ 3 := by exact_mod_cast hthree
  have hexact : i = 3 := by
    by_contra hne
    have hshort : i ≤ 2 := by omega
    interval_cases i <;> norm_num [uniformShare] at hreached
  rw [hexact, Int.cast_ofNat]

end Uniform

end Distribution

end InfoFlow
