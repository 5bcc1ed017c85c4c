import InfoFlow.Belief.Search
import InfoFlow.Proofs.Belief.Coverage
import InfoFlow.Proofs.Distribution.Rebuilt

namespace InfoFlow

variable {α : Type} [Scalar α]

/-- A probability that may be drawn. -/
structure Belief.IsProbability (p : α) : Prop where
  ge : minProbability ≤ p
  le : p ≤ maxProbability

/-- Arithmetic in which the limits of parameters are in order. -/
class LawfulLimits (α : Type) [Scalar α] : Prop where
  isBounded_minPositive : Scalar.IsBounded (Belief.minPositive : α)
  isBounded_minProbability : Scalar.IsBounded (Belief.minProbability : α)
  isBounded_maxProbability : Scalar.IsBounded (Belief.maxProbability : α)
  minProbability_le : (Belief.minProbability : α) ≤ Belief.maxProbability

section Limits

namespace Belief

theorem minProbability_eq : (minProbability : Exact) = .real 0.001 := by
  unfold minProbability
  rw [Exact.ofScientific_eq]
  norm_num

theorem maxProbability_eq : (maxProbability : Exact) = .real 0.99 := by
  unfold maxProbability
  rw [Exact.ofScientific_eq]
  norm_num

theorem minPositive_eq : (minPositive : Exact) = .real (819 / 2 ^ 13) := by
  have hsign : Binary.isNegative 0.0999755859375 = false := by decide +kernel
  have hbits : Binary.ofFloat? 0.0999755859375 = some ⟨7204000185188352, -56⟩ := by decide +kernel
  change Exact.ofFloat 0.0999755859375 = _
  unfold Exact.ofFloat
  rw [hsign, hbits]
  norm_num

end Belief

instance : LawfulLimits Exact where
  isBounded_minPositive := by
    rw [Belief.minPositive_eq]
    exact Exact.isBounded_real (by norm_num) (by norm_num)
  isBounded_minProbability := by
    rw [Belief.minProbability_eq]
    exact Exact.isBounded_real (by norm_num) (by norm_num)
  isBounded_maxProbability := by
    rw [Belief.maxProbability_eq]
    exact Exact.isBounded_real (by norm_num) (by norm_num)
  minProbability_le := by
    rw [Belief.minProbability_eq, Belief.maxProbability_eq, Exact.real_le]
    norm_num

open Double in
instance : LawfulLimits Float where
  isBounded_minPositive := by
    have hvalue : unpacked Belief.minPositive = .finite .positive 7204000185188352 (-56) (by decide) := rfl
    refine isBounded_of_value rfl ?_ ?_ <;> norm_num [hvalue, value]
  isBounded_minProbability := by
    have hvalue : unpacked Belief.minProbability = .finite .positive 4611686018427388 (-62) (by decide) := rfl
    refine isBounded_of_value rfl ?_ ?_ <;> norm_num [hvalue, value]
  isBounded_maxProbability := by
    have hvalue : unpacked Belief.maxProbability = .finite .positive 8917127262193582 (-53) (by decide) := rfl
    refine isBounded_of_value rfl ?_ ?_ <;> norm_num [hvalue, value]
  minProbability_le := by decide +kernel

end Limits

namespace ValueRange

/-- An integer of the range, from its first to its last one. -/
structure HasPoint (r : ValueRange α) (w : Int64) : Prop where
  first_le : r.first ≤ w.toInt
  le_last : w.toInt ≤ r.last
  contains : r.contains (Scalar.ofInt64 w) = true

/-- A number of trials: at least one, and no more than the last integer of the range but for that. -/
structure HasCount (r : ValueRange α) (n : UInt64) : Prop where
  pos : 1 ≤ n.toNat
  le_last : (n.toNat : ℤ) ≤ max 1 r.last

variable {r : ValueRange α} {x : α} {w : Int64} {n : UInt64}

theorem contains_iff : r.contains x = true ↔ r.lower ≤ x ∧ x ≤ r.upper := by
  simp [contains]

variable [LawfulOrder α] [LawfulBounds α] [LawfulFloor α] [LawfulIntegers α]

theorem IsAccepted.natAbs_le (hr : r.IsAccepted) {k : ℤ} (hfirst : r.first ≤ k) (hlast : k ≤ r.last) :
    k.natAbs ≤ 2 ^ 53 := by
  have hlow := hr.isBounded_lower.natAbs_ceil_le
  have hhigh := hr.isBounded_upper.natAbs_floor_le
  unfold first at hfirst
  unfold last at hlast
  omega

/-- From the first to the last integer, all of them lie between the bounds. -/
theorem IsAccepted.hasPoint (hr : r.IsAccepted) (hfirst : r.first ≤ w.toInt) (hlast : w.toInt ≤ r.last) :
    r.HasPoint w := by
  have hsize := hr.natAbs_le hfirst hlast
  refine ⟨hfirst, hlast, contains_iff.mpr ⟨?_, ?_⟩⟩
  · exact (LawfulIntegers.le_ofInt_iff hr.isBounded_lower.isFinite hsize).mpr hfirst
  · exact (LawfulIntegers.ofInt_le_iff hr.isBounded_upper.isFinite hsize).mpr hlast

/-- The word of a point is read back from the number it stands for. -/
theorem HasPoint.toInt64_ofInt64 (h : r.HasPoint w) (hr : r.IsAccepted) :
    Scalar.toInt64 (Scalar.ofInt64 w : α) = w :=
  Int64.toInt_inj.mp (LawfulIntegers.toInt64_ofInt (hr.natAbs_le h.first_le h.le_last))

/-- So is a number of trials. -/
theorem HasCount.toUInt64_ofUInt64 [LawfulNaturals α] (h : r.HasCount n) (hr : r.IsAccepted) :
    Scalar.toUInt64 (Scalar.ofUInt64 n : α) = n := by
  have hlast : r.last.natAbs ≤ 2 ^ 53 := hr.isBounded_upper.natAbs_floor_le
  have hle := h.le_last
  have hnumber : (Scalar.ofUInt64 n : α) = Scalar.ofInt (n.toNat : ℤ) := (Scalar.ofInt_natCast _).symm
  rw [hnumber, ← UInt64.toNat_inj, ← Int.ofNat_inj]
  exact Scalar.toUInt64_ofInt (by omega) (by omega)

end ValueRange

/-- The parameters of a distribution are within bounds: locations and ends lie in the range, and whole ends
are integers of it; scales, shapes and rates are not too small, probabilities neither too small nor too
large, and numbers of trials not above the range. Families that are not drawn have no such parameters. -/
def Distribution.Fits (r : ValueRange α) : Distribution α → Prop
  | bernoulli p | geometric p => Belief.IsProbability p
  | binomial n p => r.HasCount n ∧ Belief.IsProbability p
  | betaBinomial n a b => r.HasCount n ∧ Belief.minPositive ≤ a ∧ Belief.minPositive ≤ b
  | poisson rate | exponential rate => Belief.minPositive ≤ rate
  | beta a b | gamma a b => Belief.minPositive ≤ a ∧ Belief.minPositive ≤ b
  | discreteUniform lower upper => r.HasPoint lower ∧ r.HasPoint upper
  | normal location scale | laplace location scale | cauchy location scale =>
    r.contains location = true ∧ Belief.minPositive ≤ scale
  | uniform lower upper => r.contains lower = true ∧ r.contains upper = true
  | truncatedNormal location scale lower upper =>
    r.contains location = true ∧ Belief.minPositive ≤ scale ∧ r.contains lower = true ∧
      r.contains upper = true
  | studentT freedom location scale =>
    Belief.minPositive ≤ freedom ∧ r.contains location = true ∧ Belief.minPositive ≤ scale
  | categorical _ | constant _ => False

/-- The bounds that moves of a kind keep to. -/
def Move.Admits (r : ValueRange α) : Move → α → Prop
  | location, x => r.contains x = true
  | point, x => r.HasPoint (Scalar.toInt64 x)
  | positive, x => Belief.minPositive ≤ x
  | count, x => r.HasCount (Scalar.toUInt64 x)
  | probability, x => Belief.IsProbability x

section Parameters

variable {r : ValueRange α} {d : Distribution α}

/-- What is built from values within the bounds of their moves has its parameters within bounds. -/
theorem Distribution.fits_of_build {f : Family} {values : List α} (h : build f values none = .ok d)
    (hvalues : List.Forall₂ (Move.Admits r) f.moves values) : d.Fits r := by
  have hchecked := (build_eq_ok_iff.mp h).2.2
  cases f
  case bernoulli | geometric | poisson | exponential =>
    rcases hvalues with _ | ⟨hx, _ | _⟩
    cases hchecked
    exact hx
  case binomial | beta | gamma | normal | laplace | cauchy =>
    rcases hvalues with _ | ⟨hx, _ | ⟨hy, _ | _⟩⟩
    cases hchecked
    exact ⟨hx, hy⟩
  case betaBinomial | studentT =>
    rcases hvalues with _ | ⟨hx, _ | ⟨hy, _ | ⟨hz, _ | _⟩⟩⟩
    cases hchecked
    exact ⟨hx, hy, hz⟩
  case discreteUniform | uniform =>
    rcases hvalues with _ | ⟨hx, _ | ⟨hy, _ | _⟩⟩
    unfold ofChecked at hchecked
    simp only at hchecked
    split at hchecked
    · cases hchecked
    · cases hchecked
      exact ⟨hx, hy⟩
  case truncatedNormal =>
    rcases hvalues with _ | ⟨hmean, _ | ⟨hdeviation, _ | ⟨hlower, _ | ⟨hupper, _ | _⟩⟩⟩⟩
    unfold ofChecked at hchecked
    simp only at hchecked
    split at hchecked
    · cases hchecked
    · split at hchecked
      · cases hchecked
      · cases hchecked
        exact ⟨hmean, hdeviation, hlower, hupper⟩
  case categorical | constant =>
    rcases hvalues with _ | _
    cases hchecked

variable [LawfulOrder α] [LawfulBounds α] [LawfulFloor α] [LawfulIntegers α] [LawfulNaturals α]

/-- The values that a distribution reports are within the bounds of their moves. -/
theorem Distribution.Fits.admits (hd : d.Fits r) (hr : r.IsAccepted) :
    List.Forall₂ (Move.Admits r) d.family.moves d.parameterValues := by
  have hpoint {w : Int64} (h : r.HasPoint w) : Move.point.Admits r (Scalar.ofInt64 w : α) := by
    change r.HasPoint (Scalar.toInt64 (Scalar.ofInt64 w : α))
    rwa [h.toInt64_ofInt64 hr]
  have hcount {n : UInt64} (h : r.HasCount n) : Move.count.Admits r (Scalar.ofUInt64 n : α) := by
    change r.HasCount (Scalar.toUInt64 (Scalar.ofUInt64 n : α))
    rwa [h.toUInt64_ofUInt64 hr]
  cases d
  case bernoulli | geometric | poisson | exponential => exact .cons hd .nil
  case beta | gamma | normal | laplace | cauchy | uniform => exact .cons hd.1 (.cons hd.2 .nil)
  case studentT => exact .cons hd.1 (.cons hd.2.1 (.cons hd.2.2 .nil))
  case truncatedNormal =>
    obtain ⟨hmean, hdeviation, hlower, hupper⟩ := hd
    exact .cons hmean (.cons hdeviation (.cons hlower (.cons hupper .nil)))
  case binomial => exact .cons (hcount hd.1) (.cons hd.2 .nil)
  case betaBinomial => exact .cons (hcount hd.1) (.cons hd.2.1 (.cons hd.2.2 .nil))
  case discreteUniform => exact .cons (hpoint hd.1) (.cons (hpoint hd.2) .nil)
  case categorical | constant => exact hd.elim

end Parameters

section Shifts

variable [LawfulOrder α] [LawfulBounds α] [LawfulFloor α] [LawfulIntegers α] {r : ValueRange α}

/-- A number that is moved between the first and the last integer of a range becomes one of them when it is
truncated to a word. -/
theorem hasPoint_clamped (hr : r.IsAccepted) (hsome : r.first ≤ r.last) (x : α) :
    r.HasPoint (Scalar.toInt64 (Scalar.min (Scalar.max x (Scalar.ceil r.lower)) (Scalar.floor r.upper))) := by
  have hceil := LawfulIntegers.isFinite_ceil hr.isBounded_lower.isFinite
  have hfloor := LawfulIntegers.isFinite_floor hr.isBounded_upper.isFinite
  have habove := Scalar.le_max_right x (Scalar.isFinite_iff.mp hceil).1
  have hbelow := Scalar.min_le_right (Scalar.max x (Scalar.ceil r.lower)) (Scalar.isFinite_iff.mp hfloor).1
  rcases Scalar.min_eq_or (Scalar.max x (Scalar.ceil r.lower)) (Scalar.floor r.upper) with h | h
  · rw [h] at hbelow ⊢
    have hfinite := Scalar.isFinite_of_between habove hbelow hceil hfloor
    exact hr.hasPoint (LawfulIntegers.toInt64_mono hceil hfinite habove)
      (LawfulIntegers.toInt64_mono hfinite hfloor hbelow)
  · rw [h]
    exact hr.hasPoint hsome le_rfl

variable [LawfulNaturals α]

theorem hasCount_of_between (hr : r.IsAccepted) {x : α} (hlow : 1 ≤ x)
    (hhigh : x ≤ Scalar.max (Scalar.floor r.upper) 1) : r.HasCount (Scalar.toUInt64 x) := by
  have hone : (1 : α) = Scalar.ofInt 1 := (Scalar.ofInt_natCast 1).symm
  have hzero : (0 : α) = Scalar.ofInt 0 := (Scalar.ofInt_natCast 0).symm
  have hunit : Scalar.IsBounded (1 : α) := hone ▸ Scalar.isBounded_ofInt (by decide)
  have hword : (Scalar.toInt64 (1 : α)).toInt = 1 := hone ▸ LawfulIntegers.toInt64_ofInt (by decide)
  have hfloor := LawfulIntegers.isFinite_floor hr.isBounded_upper.isFinite
  have hlargest : Scalar.isFinite (Scalar.max (Scalar.floor r.upper) 1) = true ∧
      Scalar.max (Scalar.floor r.upper) 1 ≤ Scalar.ofInt (2 ^ 53 : ℕ) ∧
      (Scalar.toInt64 (Scalar.max (Scalar.floor r.upper) 1)).toInt ≤ max 1 r.last := by
    rcases Scalar.max_eq_or (Scalar.floor r.upper) 1 with h | h <;> rw [h]
    · exact ⟨hfloor, LawfulOrder.le_trans (LawfulFloor.floor_le hr.isBounded_upper.isFinite)
        hr.isBounded_upper.le_ofInt, le_max_right _ _⟩
    · exact ⟨hunit.isFinite, hunit.le_ofInt, hword.trans_le (le_max_left _ _)⟩
  obtain ⟨hfinite, hle, hlast⟩ := hlargest
  have hx := Scalar.isFinite_of_between hlow hhigh hunit.isFinite hfinite
  have hnonneg : (0 : α) ≤ 1 := by
    rw [hone, hzero]
    exact (Scalar.ofInt_le_ofInt (by decide) (by decide)).mpr (by decide)
  have hcount := LawfulNaturals.toUInt64_eq (LawfulOrder.le_trans hnonneg hlow)
    (Scalar.ofInt_natCast (α := α) (2 ^ 53) ▸ LawfulOrder.le_trans hhigh hle)
  have hmono := LawfulIntegers.toInt64_mono hunit.isFinite hx hlow
  have hmono' := LawfulIntegers.toInt64_mono hx hfinite hhigh
  exact ⟨by omega, by omega⟩

variable [LawfulLimits α]

/-- What a parameter is moved to is within the bounds of its kind. -/
theorem Move.shift_admits (hr : r.IsAccepted) {move : Move} (hsome : move = .point → r.first ≤ r.last)
    (x h : α) (isUp : Bool) : move.Admits r (Search.shift x move h isUp r) := by
  have hone : Scalar.isNaN (1 : α) = false :=
    (Scalar.isFinite_iff.mp (LawfulBounds.isFinite_ofNat (by norm_num))).1
  cases move with
  | location =>
    have hlower := (Scalar.isFinite_iff.mp hr.isBounded_lower.isFinite).1
    have hupper := (Scalar.isFinite_iff.mp hr.isBounded_upper.isFinite).1
    exact ValueRange.contains_iff.mpr ⟨Scalar.le_min_max _ (Scalar.le_of_lt hr.lower_lt_upper) hlower,
      Scalar.min_le_right _ hupper⟩
  | point => exact hasPoint_clamped hr (hsome rfl) _
  | positive =>
    exact Scalar.le_max_right _ (Scalar.isFinite_iff.mp LawfulLimits.isBounded_minPositive.isFinite).1
  | count =>
    have hnumber : Scalar.isNaN (Scalar.max (Scalar.floor r.upper) 1) = false := by
      rcases Scalar.max_eq_or (Scalar.floor r.upper) 1 with h | h <;> rw [h]
      · exact (Scalar.isFinite_iff.mp (LawfulIntegers.isFinite_floor hr.isBounded_upper.isFinite)).1
      · exact hone
    exact hasCount_of_between hr (Scalar.le_min_max _ (Scalar.le_max_right _ hone) hone)
      (Scalar.min_le_right _ hnumber)
  | probability =>
    exact ⟨Scalar.le_min_max _ LawfulLimits.minProbability_le
        (Scalar.isFinite_iff.mp LawfulLimits.isBounded_minProbability.isFinite).1,
      Scalar.min_le_right _ (Scalar.isFinite_iff.mp LawfulLimits.isBounded_maxProbability.isFinite).1⟩

end Shifts

theorem Family.isDiscrete_of_point {f : Family} (h : .point ∈ f.moves) : f.isDiscrete = true := by
  cases f <;> first | rfl | exact absurd h (by decide)

namespace ScalarGenerator

/-- A distribution of a family that covers as much as the generator asks for, with parameters within the
bounds for its range. -/
structure Admits (g : ScalarGenerator α) (f : Family) (d : Distribution α) : Prop where
  family_eq : d.family = f
  minimum_le : g.policy.minimum.toNat ≤ g.coverage d
  fits : d.Fits g.range

variable [LawfulOrder α] [LawfulBounds α] [LawfulRounding α] [LawfulFloor α] [LawfulIntegers α]
  {g : ScalarGenerator α} {d : Distribution α}

/-- Discrete distributions cover integers of the range only: there are some if anything is covered. -/
theorem first_le_last (hr : g.range.IsAccepted) (hminimum : 1 ≤ g.policy.minimum) (hd : d.isDiscrete = true)
    (hcovered : g.policy.minimum.toNat ≤ g.coverage d) : g.range.first ≤ g.range.last := by
  have hone : 1 ≤ g.policy.minimum.toNat := UInt64.le_iff_toNat_le.mp hminimum
  have hsome : 0 < (candidatePoints d g.range g.policy).countP (isCoveredPoint d g.policy) := by
    unfold coverage InfoFlow.coverage at hcovered
    rw [if_pos hd] at hcovered
    omega
  obtain ⟨k, hk, -⟩ := List.countP_pos_iff.mp hsome
  obtain ⟨hsize, hlower, hupper, -⟩ := mem_candidatePoints hr hk
  exact ((LawfulIntegers.le_ofInt_iff hr.isBounded_lower.isFinite hsize).mp hlower).trans
    ((LawfulIntegers.ofInt_le_iff hr.isBounded_upper.isFinite hsize).mp hupper)

variable [LawfulNaturals α] [LawfulLimits α]

/-- What an admitted distribution is moved to is admitted for the same family. -/
theorem moved?_admits (hr : g.range.IsAccepted) (hminimum : 1 ≤ g.policy.minimum) {f : Family}
    (hd : g.Admits f d) {p : ℕ} {isUp : Bool} {h : α} {moved : Distribution α}
    (hmoved : Search.moved? g d p isUp h = some moved) : g.Admits f moved := by
  unfold Search.moved? at hmoved
  obtain ⟨move, hmove, hmoved⟩ := Option.bind_eq_some_iff.mp hmoved
  obtain ⟨x, -, hmoved⟩ := Option.bind_eq_some_iff.mp hmoved
  dsimp only at hmoved
  split at hmoved
  · cases hmoved
  · obtain ⟨built, hbuilt, hmoved⟩ := Option.bind_eq_some_iff.mp hmoved
    rw [Except.toOption_eq_some_iff] at hbuilt
    split at hmoved
    · rename_i hadequate
      cases hmoved
      have hsome (hpoint : move = .point) : g.range.first ≤ g.range.last :=
        first_le_last hr hminimum (Family.isDiscrete_of_point (hpoint ▸ List.mem_of_getElem? hmove))
          hd.minimum_le
      refine ⟨(Distribution.family_of_build hbuilt).trans hd.family_eq, ?_, ?_⟩
      · simpa [isAdequate] using hadequate
      · exact Distribution.fits_of_build hbuilt
          ((hd.fits.admits hr).set hmove (Move.shift_admits hr hsome x h isUp))
    · cases hmoved

end ScalarGenerator

end InfoFlow
