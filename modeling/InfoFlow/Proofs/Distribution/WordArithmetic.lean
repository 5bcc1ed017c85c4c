import InfoFlow.Distribution.Checked
import InfoFlow.Proofs.Distribution.Quantile
import InfoFlow.Proofs.Scalar.Indices

namespace InfoFlow

namespace WordFault

variable {α : Type}

theorem entry_eq_ok {entries : Array α} {i : Nat} (h : i < entries.size) :
    entry entries i = .ok entries[i] := by
  unfold entry
  rw [Array.getElem?_eq_getElem h]

theorem entry_eq_error {entries : Array α} {i : Nat} (h : entries.size ≤ i) :
    entry entries i = .error .outOfBounds := by
  unfold entry
  rw [Array.getElem?_eq_none h]

theorem difference_eq_ok {n k : UInt64} (h : k ≤ n) : difference n k = .ok (n - k) :=
  if_neg (UInt64.not_lt.mpr h)

/-- A signed word is the whole number that it stands for. -/
theorem signed_eq_ok_iff {i : ℤ} {w : Int64} : signed i = .ok w ↔ w.toInt = i := by
  unfold signed
  constructor
  · intro h
    split at h
    · rename_i hrange
      cases h
      rw [Int64.toInt_minValue, Int64.toInt_maxValue] at hrange
      exact Int64.toInt_ofInt_of_le hrange.1 (Int.lt_of_le_sub_one hrange.2)
    · cases h
  · rintro rfl
    rw [if_pos ⟨w.minValue_le_toInt, w.toInt_le⟩, Int64.ofInt_toInt]

theorem signed_eq_error {i : ℤ} (h : 2 ^ 63 ≤ i) : signed i = .error .overflow :=
  if_neg fun hrange => by
    rw [Int64.toInt_maxValue] at hrange
    omega

variable {lower upper : Int64}

/-- Words count as they should, as long as there are fewer than `2 ^ 63` numbers. -/
theorem span_eq_ok (hle : lower.toInt ≤ upper.toInt) (h : upper.toInt - lower.toInt + 1 < 2 ^ 63) :
    span lower upper = .ok (upper - lower + 1) := by
  have hdistance : (upper - lower).toInt = upper.toInt - lower.toInt := by
    rw [Int64.toInt_sub, Int.bmod_eq_of_le (by omega) (by omega)]
  have hone : (1 : Int64).toInt = 1 := rfl
  have hcount : (upper - lower + 1).toInt = upper.toInt - lower.toInt + 1 := by
    rw [Int64.toInt_add, hdistance, hone, Int.bmod_eq_of_le (by omega) (by omega)]
  unfold span
  rw [signed_eq_ok_iff.mpr hdistance]
  change signed ((upper - lower).toInt + 1) = _
  rw [hdistance, signed_eq_ok_iff.mpr hcount]

theorem span_eq_error (h : 2 ^ 63 ≤ upper.toInt - lower.toInt + 1) :
    span lower upper = .error .overflow := by
  unfold span
  by_cases hdistance : 2 ^ 63 ≤ upper.toInt - lower.toInt
  · rw [signed_eq_error hdistance]
    rfl
  · have hrange : -2 ^ 63 ≤ upper.toInt - lower.toInt ∧ upper.toInt - lower.toInt < 2 ^ 63 := by omega
    have hword := Int64.toInt_ofInt_of_le hrange.1 hrange.2
    rw [signed_eq_ok_iff.mpr hword]
    change signed ((Int64.ofInt (upper.toInt - lower.toInt)).toInt + 1) = _
    rw [hword, signed_eq_error h]

/-- From `2 ^ 63` numbers on, the count of words is too small by `2 ^ 64`. -/
theorem toInt_wrapped (h : 2 ^ 63 ≤ upper.toInt - lower.toInt + 1) :
    (upper - lower + 1).toInt = upper.toInt - lower.toInt + 1 - 2 ^ 64 := by
  have hhigh := upper.toInt_lt
  have hlow := lower.le_toInt
  have hone : (1 : Int64).toInt = 1 := rfl
  rw [Int64.toInt_add, Int64.toInt_sub, Int.bmod_add_bmod, hone, Int.bmod_def]
  omega

end WordFault

namespace Distribution

open Special

variable {α : Type} [Scalar α]

/-- The log-density is what checked words answer. They do not where a uniform distribution has `2 ^ 63` whole
numbers or more, which then count as `2 ^ 64` fewer, and where a category is beyond the positions that are
numbers. -/
structure IsCountedExactly (d : Distribution α) (x : α) : Prop where
  eq_of_ok {y : α} : d.lnDensityChecked x = .ok y → y = d.lnDensity x
  not_underflow : d.lnDensityChecked x ≠ .error .underflow
  outOfBounds : d.lnDensityChecked x = .error .outOfBounds →
    ∃ ws, d = .categorical ws ∧ 2 ^ 53 < ws.size
  overflow : d.lnDensityChecked x = .error .overflow → ∃ lower upper, d = .discreteUniform lower upper ∧
    d.support.contains x = true ∧ 2 ^ 63 ≤ upper.toInt - lower.toInt + 1
  wraps {lower upper : Int64} : d = .discreteUniform lower upper → d.support.contains x = true →
    2 ^ 63 ≤ upper.toInt - lower.toInt + 1 → d.lnDensityChecked x = .error .overflow ∧
      d.lnDensity x = -Scalar.log (Scalar.ofInt (upper.toInt - lower.toInt + 1 - 2 ^ 64))

section Built

variable {f : Family} {values : List α} {weights : Option (List α)} {d : Distribution α}

/-- Numbers of trials are truncated. -/
theorem exists_of_build_trials {n : UInt64} (h : build f values weights = .ok d)
    (hd : (∃ p, d = .binomial n p) ∨ ∃ a b, d = .betaBinomial n a b) :
    ∃ y : α, n = Scalar.toUInt64 y := by
  obtain ⟨hlength, _, hchecked⟩ := build_eq_ok_iff.mp h
  have hf := family_of_ofChecked hchecked
  obtain ⟨p, rfl⟩ | ⟨a, b, rfl⟩ := hd
  · obtain rfl : f = .binomial := hf.symm
    obtain ⟨y, p, rfl⟩ := List.length_eq_two.mp hlength
    cases hchecked
    exact ⟨y, rfl⟩
  · obtain rfl : f = .betaBinomial := hf.symm
    obtain ⟨y, a, b, rfl⟩ := List.length_eq_three.mp hlength
    cases hchecked
    exact ⟨y, rfl⟩

/-- There are weights. -/
theorem size_pos_of_build {ws : Array α} (h : build f values weights = .ok (.categorical ws)) :
    0 < ws.size := by
  obtain ⟨_, _, hchecked⟩ := build_eq_ok_iff.mp h
  obtain rfl : f = .categorical := (family_of_ofChecked hchecked).symm
  have hweights : ofWeights weights = .ok (.categorical ws) := hchecked
  obtain ⟨declared, _, hne, heq⟩ := ofWeights_eq_ok hweights
  cases heq
  simpa [List.length_pos_iff] using hne

variable [LawfulOrder α] [LawfulBounds α] [LawfulWords α] [LawfulTruncation α]

/-- A count from 0 to a number of trials is no larger as a word. -/
theorem toUInt64_le_trials {n : UInt64} {x : α} (hn : ∃ y : α, n = Scalar.toUInt64 y) (hnonneg : 0 ≤ x)
    (hle : x ≤ Scalar.ofUInt64 n) : Scalar.toUInt64 x ≤ n := by
  obtain ⟨y, rfl⟩ := hn
  have hzero : Scalar.isFinite (0 : α) = true := LawfulBounds.isFinite_ofNat (Nat.zero_le _)
  have hword := LawfulWords.isFinite_ofUInt64 y
  have hx := Scalar.isFinite_of_between hnonneg hle hzero hword
  have hwords := LawfulTruncation.toUInt64_mono hx hword fun hlt => Scalar.not_le_of_lt hlt hle
  rwa [LawfulWords.toUInt64_ofUInt64] at hwords

omit [LawfulOrder α] [LawfulWords α] [LawfulTruncation α] in
/-- Bounds that are `2 ^ 63` numbers apart or more overflow, and the density is that of a count which is too
small by `2 ^ 64`. -/
theorem lnDensityChecked_of_wide {lower upper : Int64} {x : α}
    (hinside : (discreteUniform lower upper : Distribution α).support.contains x = true)
    (hwide : 2 ^ 63 ≤ upper.toInt - lower.toInt + 1) :
    (discreteUniform lower upper).lnDensityChecked x = .error .overflow ∧
      (discreteUniform lower upper).lnDensity x =
        -Scalar.log (Scalar.ofInt (upper.toInt - lower.toInt + 1 - 2 ^ 64)) := by
  have hnumber : Scalar.isNaN x = false := by
    have hle := hinside
    simp only [Support.contains, Bool.and_eq_true, decide_eq_true_eq] at hle
    exact (LawfulBounds.isNaN_of_le hle.1.1).2
  unfold lnDensityChecked lnDensity
  rw [hnumber, hinside]
  refine ⟨?_, ?_⟩
  · simp only [WordFault.span_eq_error hwide]
    rfl
  · rw [← WordFault.toInt_wrapped hwide]
    rfl

variable [LawfulIntegers α] [LawfulIndices α]

omit [LawfulBounds α] [LawfulWords α] [LawfulTruncation α] [LawfulIndices α] in
/-- Bounds are in order as words. -/
theorem toInt_le_of_build {lower upper : Int64}
    (h : build f values weights = .ok (.discreteUniform lower upper)) : lower.toInt ≤ upper.toInt := by
  obtain ⟨x, y, hx, hy, hle, rfl, rfl⟩ := exists_of_build_discreteUniform h
  exact LawfulIntegers.toInt64_mono hx hy
    (Scalar.le_of_not_lt (Scalar.isFinite_iff.mp hy).1 (Scalar.isFinite_iff.mp hx).1 hle)

theorem lnDensityChecked_cases (h : build f values weights = .ok d) (x : α) :
    d.lnDensityChecked x = .ok (d.lnDensity x) ∨
    (∃ ws, d = .categorical ws ∧ 2 ^ 53 < ws.size ∧ d.lnDensityChecked x = .error .outOfBounds) ∨
    ∃ lower upper, d = .discreteUniform lower upper ∧ d.support.contains x = true ∧
      2 ^ 63 ≤ upper.toInt - lower.toInt + 1 := by
  by_cases houtside : (Scalar.isNaN x || !d.support.contains x) = true
  · left
    unfold lnDensityChecked lnDensity
    rw [if_pos houtside, if_pos houtside]
  have hinside : d.support.contains x = true := by
    simp only [Bool.or_eq_true, Bool.not_eq_true', not_or, Bool.not_eq_false] at houtside
    exact houtside.2
  obtain ⟨hlower, hupper⟩ : d.support.lower ≤ x ∧ x ≤ d.support.upper := by
    simp only [Support.contains, Bool.and_eq_true, decide_eq_true_eq] at hinside
    exact hinside.1
  unfold lnDensityChecked lnDensity
  rw [if_neg houtside, if_neg houtside]
  cases d with
  | betaBinomial n a b =>
    left
    have hk := toUInt64_le_trials (exists_of_build_trials h (.inr ⟨a, b, rfl⟩)) hlower hupper
    simp only [WordFault.difference_eq_ok hk]
    rfl
  | binomial n p =>
    left
    have hk := toUInt64_le_trials (exists_of_build_trials h (.inl ⟨p, rfl⟩)) hlower hupper
    simp only [WordFault.difference_eq_ok hk]
    rfl
  | discreteUniform lower upper =>
    by_cases hcount : upper.toInt - lower.toInt + 1 < 2 ^ 63
    · left
      simp only [WordFault.span_eq_ok (toInt_le_of_build h) hcount]
      rfl
    · exact .inr (.inr ⟨lower, upper, rfl, hinside, not_lt.mp hcount⟩)
  | categorical ws =>
    by_cases hposition : (Scalar.toUInt64 x).toNat < ws.size
    · left
      simp only [WordFault.entry_eq_ok hposition, Array.getD_eq_getD_getElem?,
        Array.getElem?_eq_getElem hposition]
      rfl
    · right
      left
      have hmany : 2 ^ 53 < ws.size := by
        by_contra hfew
        exact hposition (LawfulIndices.toNat_toUInt64_lt (size_pos_of_build h) (not_lt.mp hfew) hlower hupper)
      refine ⟨ws, rfl, hmany, ?_⟩
      simp only [WordFault.entry_eq_error (not_lt.mp hposition)]
      rfl
  | bernoulli | beta | cauchy | exponential | gamma | geometric | laplace | normal | poisson | studentT
  | truncatedNormal | uniform | constant =>
    left
    simp only [if_neg houtside]

/-- The log-density of whatever is built is computed without wrapping a word, unless it counts `2 ^ 63` whole
numbers or more. No difference of counts is negative, and there is a weight for every category, as long as
all positions are numbers. -/
theorem isCountedExactly (h : build f values weights = .ok d) (x : α) : d.IsCountedExactly x := by
  have hwide {lower upper : Int64} (hd : d = .discreteUniform lower upper)
      (hinside : d.support.contains x = true) (hmany : 2 ^ 63 ≤ upper.toInt - lower.toInt + 1) :
      d.lnDensityChecked x = .error .overflow ∧
        d.lnDensity x = -Scalar.log (Scalar.ofInt (upper.toInt - lower.toInt + 1 - 2 ^ 64)) := by
    subst hd
    exact lnDensityChecked_of_wide hinside hmany
  obtain hok | ⟨ws, hd, hmany, herror⟩ | ⟨lower, upper, hd, hinside, hmany⟩ :=
    lnDensityChecked_cases h x
  · constructor
    case eq_of_ok => exact fun hy => Except.ok.inj (hy.symm.trans hok)
    case not_underflow => exact fun herror => nomatch hok.symm.trans herror
    case outOfBounds => exact fun herror => nomatch hok.symm.trans herror
    case overflow => exact fun herror => nomatch hok.symm.trans herror
    case wraps => exact fun hd hinside hmany => hwide hd hinside hmany
  · constructor
    case eq_of_ok => exact fun hy => nomatch hy.symm.trans herror
    case not_underflow => exact fun hunderflow => nomatch herror.symm.trans hunderflow
    case outOfBounds => exact fun _ => ⟨ws, hd, hmany⟩
    case overflow => exact fun hoverflow => nomatch herror.symm.trans hoverflow
    case wraps => exact fun heq _ _ => nomatch hd.symm.trans heq
  · obtain ⟨herror, hvalue⟩ := hwide hd hinside hmany
    constructor
    case eq_of_ok => exact fun hy => nomatch hy.symm.trans herror
    case not_underflow => exact fun hunderflow => nomatch herror.symm.trans hunderflow
    case outOfBounds => exact fun houtside => nomatch herror.symm.trans houtside
    case overflow => exact fun _ => ⟨lower, upper, hd, hinside, hmany⟩
    case wraps => exact fun hd hinside hmany => hwide hd hinside hmany

end Built

section Doubles

/-- The binomial distribution of more trials than a word counts has an exact log-density. -/
theorem isCountedExactly_manyTrials :
    build .binomial [(1e20 : Float), 0.5] none = .ok (.binomial 18446744073709551615 0.5) ∧
      ∃ y, (binomial 18446744073709551615 (0.5 : Float)).lnDensityChecked 1e19 = .ok y := by
  have hbuilt : build .binomial [(1e20 : Float), 0.5] none =
      .ok (.binomial 18446744073709551615 0.5) := by rfl
  have hexact := isCountedExactly hbuilt 1e19
  refine ⟨hbuilt, ?_⟩
  cases hchecked : (binomial 18446744073709551615 (0.5 : Float)).lnDensityChecked 1e19 with
  | ok y => exact ⟨y, rfl⟩
  | error fault =>
    cases fault with
    | outOfBounds =>
      obtain ⟨ws, hd, _⟩ := hexact.outOfBounds hchecked
      cases hd
    | underflow => exact absurd hchecked hexact.not_underflow
    | overflow =>
      obtain ⟨lower, upper, hd, _⟩ := hexact.overflow hchecked
      cases hd

/-- The bounds `-2 ^ 63` and `2 ^ 63` are accepted, and all `2 ^ 64` numbers between them count as none. -/
theorem all_words_overflow :
    build .discreteUniform [(-9223372036854775808 : Float), 9223372036854775808] none =
        .ok (.discreteUniform Int64.minValue Int64.maxValue) ∧
      (discreteUniform Int64.minValue Int64.maxValue).support.contains (0 : Float) = true ∧
      (discreteUniform Int64.minValue Int64.maxValue).lnDensityChecked (0 : Float) = .error .overflow ∧
      (discreteUniform Int64.minValue Int64.maxValue).lnDensity (0 : Float) =
        -Scalar.log (Scalar.ofInt 0) := by
  have hlower : checkLiteral .discreteUniform "lower" (-9223372036854775808 : Float) = .ok () :=
    checkLiteral_bound_iff.mpr (by decide +kernel)
  have hupper : checkLiteral .discreteUniform "upper" (9223372036854775808 : Float) = .ok () :=
    checkLiteral_bound_iff.mpr (by decide +kernel)
  have hle : ¬ (9223372036854775808 : Float) < -9223372036854775808 := by decide +kernel
  have hbuilt : build .discreteUniform [(-9223372036854775808 : Float), 9223372036854775808] none =
      .ok (.discreteUniform Int64.minValue Int64.maxValue) := by
    refine build_eq_ok_iff.mpr ⟨rfl, fun _ => List.forall_mem_cons.mpr ⟨hlower,
      List.forall_mem_cons.mpr ⟨hupper, by simp⟩⟩, ?_⟩
    simp only [ofChecked, if_neg hle]
    rfl
  have hinside : (discreteUniform Int64.minValue Int64.maxValue).support.contains (0 : Float) = true := by
    decide +kernel
  have hnone : Int64.maxValue.toInt - Int64.minValue.toInt + 1 - 2 ^ 64 = 0 := by
    rw [Int64.toInt_maxValue, Int64.toInt_minValue]
    norm_num
  obtain ⟨hoverflow, hvalue⟩ := lnDensityChecked_of_wide hinside (by omega)
  rw [hnone] at hvalue
  exact ⟨hbuilt, hinside, hoverflow, hvalue⟩

end Doubles

end Distribution

end InfoFlow
