import InfoFlow.Proofs.Belief.Candidates
import InfoFlow.Proofs.Program.Except
import InfoFlow.Proofs.Scalar.Integers

namespace InfoFlow

variable {α : Type} [Scalar α]

namespace ValueRange

/-- The first integer that is not below the range, as a signed word. -/
def first (r : ValueRange α) : ℤ := (Scalar.toInt64 (Scalar.ceil r.lower)).toInt

/-- The last integer that is not above it. -/
def last (r : ValueRange α) : ℤ := (Scalar.toInt64 (Scalar.floor r.upper)).toInt

/-- Increasing bounds, within those up to which the doubles have every integer. -/
structure IsAccepted (r : ValueRange α) : Prop where
  lower_lt_upper : r.lower < r.upper
  isBounded_lower : Scalar.IsBounded r.lower
  isBounded_upper : Scalar.IsBounded r.upper

variable {r : ValueRange α} {k : ℤ} {n : ℕ}

theorem integers_eq (r : ValueRange α) (n : ℕ) :
    r.integers n = (List.range (min (r.last - r.first + 1).toNat n)).map fun (i : ℕ) => r.first + (i : ℤ) := rfl

theorem mem_integers (h : k ∈ r.integers n) : r.first ≤ k ∧ k ≤ r.last := by
  rw [integers_eq, List.mem_map] at h
  obtain ⟨i, hi, rfl⟩ := h
  rw [List.mem_range] at hi
  omega

theorem nodup_integers (r : ValueRange α) (n : ℕ) : (r.integers n).Nodup := by
  rw [integers_eq]
  exact List.nodup_range.map fun i j h => by simpa using h

/-- As many integers of a range have a property as lie between two of them, at most. -/
theorem countP_integers_le {p : ℤ → Bool} {a b : ℤ}
    (h : ∀ k ∈ r.integers n, p k = true → a ≤ k ∧ k ≤ b) :
    (r.integers n).countP p ≤ (b - a + 1).toNat := by
  have hsubset : ((r.integers n).filter p).toFinset ⊆ Finset.Icc a b := by
    intro k hk
    rw [List.mem_toFinset, List.mem_filter] at hk
    exact Finset.mem_Icc.mpr (h k hk.1 hk.2)
  rw [List.countP_eq_length_filter,
    ← List.toFinset_card_of_nodup ((nodup_integers r n).filter p)]
  calc ((r.integers n).filter p).toFinset.card ≤ (Finset.Icc a b).card := Finset.card_le_card hsubset
    _ = (b - a + 1).toNat := by
      rw [Int.card_Icc]
      congr 1
      ring

variable [LawfulOrder α] [LawfulBounds α]

/-- Infinite ends are replaced by finite ones, and large ones are refused. -/
theorem isAccepted_of_ofBounds {lower upper : α} (h : ofBounds lower upper = .ok r) :
    r.IsAccepted := by
  have hlimit : Scalar.isFinite (limit : α) = true := LawfulBounds.isFinite_ofNat (by norm_num)
  have hexact : Scalar.isFinite (exactLimit : α) = true := LawfulBounds.isFinite_ofNat le_rfl
  unfold ofBounds at h
  simp only [Except.ite_throw_bind_eq_ok_iff, Except.pure_eq_ok_iff, Bool.or_eq_true, not_or,
    Bool.not_eq_true, decide_eq_false_iff_not] at h
  obtain ⟨⟨hlower, hupper⟩, _, hle, ⟨hlow, hhigh⟩, rfl⟩ := h
  have hnumber : Scalar.isNaN (if lower == -Scalar.infinity then -limit else lower) = false := by
    split
    · exact (Scalar.isFinite_iff.mp (LawfulBounds.isFinite_neg hlimit)).1
    · exact hlower
  have hnumber' : Scalar.isNaN (if upper == Scalar.infinity then limit else upper) = false := by
    split
    · exact (Scalar.isFinite_iff.mp hlimit).1
    · exact hupper
  obtain ⟨hlowge, hlowle⟩ := LawfulBounds.le_of_not_lt_abs hnumber hexact hlow
  obtain ⟨hhighge, hhighle⟩ := LawfulBounds.le_of_not_lt_abs hnumber' hexact hhigh
  exact ⟨Scalar.lt_of_not_le hnumber' hnumber hle, ⟨hlowge, hlowle⟩, ⟨hhighge, hhighle⟩⟩

theorem IsBuilt.isAccepted (h : r.IsBuilt) : r.IsAccepted :=
  let ⟨_, _, hr⟩ := h
  isAccepted_of_ofBounds hr

end ValueRange

theorem Support.isNaN_ofFamily [LawfulOrder α] [LawfulBounds α] (f : Family) :
    Scalar.isNaN (Support.ofFamily f : Support α).lower = false ∧
      Scalar.isNaN (Support.ofFamily f : Support α).upper = false := by
  have hzero : Scalar.isNaN (0 : α) = false := LawfulOrder.isNaN_zero
  have hone : Scalar.isNaN (1 : α) = false :=
    (Scalar.isFinite_iff.mp (LawfulBounds.isFinite_ofNat (by norm_num))).1
  have htop : Scalar.isNaN (Scalar.infinity : α) = false :=
    (LawfulBounds.isNaN_of_le (LawfulBounds.le_infinity hzero)).2
  have hbottom : Scalar.isNaN (-Scalar.infinity : α) = false :=
    (LawfulBounds.isNaN_of_le (LawfulBounds.negInfinity_le hzero)).1
  cases f <;> first | exact ⟨hzero, hone⟩ | exact ⟨hzero, htop⟩ | exact ⟨hone, htop⟩ | exact ⟨hbottom, htop⟩

namespace Distribution

/-- The ends of a support are those of its family, unless the family has none. -/
theorem support_lower_eq (d : Distribution α) :
    (Support.ofFamily d.family : Support α).lower = -Scalar.infinity ∨
      d.support.lower = (Support.ofFamily d.family : Support α).lower := by
  cases d <;> first | exact .inl rfl | exact .inr rfl

theorem support_upper_eq (d : Distribution α) :
    (Support.ofFamily d.family : Support α).upper = Scalar.infinity ∨
      d.support.upper = (Support.ofFamily d.family : Support α).upper := by
  cases d <;> first | exact .inl rfl | exact .inr rfl

end Distribution

section Points

variable [LawfulOrder α] [LawfulFloor α] [LawfulIntegers α]

theorem not_one_le_zero : ¬ (1 : α) ≤ 0 := by
  intro h
  have hone := (Scalar.ofInt_le_ofInt (α := α) (i := 1) (j := 0) (by decide) (by decide)).mp h
  omega

variable [LawfulRounding α]

theorem quantile_of_nonpos (d : Distribution α) {q : α} (hq : q ≤ 0) :
    d.quantile q = d.support.lower ∧ d.quantile (1 - q) = d.support.upper := by
  have hone := LawfulRounding.one_le_one_sub hq
  have hpos : ¬ 1 - q ≤ 0 := fun h => not_one_le_zero (LawfulOrder.le_trans hone h)
  unfold Distribution.quantile
  exact ⟨if_pos hq, by rw [if_neg hpos, if_pos hone]⟩

variable [LawfulBounds α] {d : Distribution α} {r : ValueRange α} {policy : CoveragePolicy α} {k : ℤ}

/-- The window lies in the range, and in the support if no mass is asked for; or nothing is left. -/
theorem massWindow_cases (hr : r.IsAccepted) (d : Distribution α) (floor : α) :
    massWindow d r floor = ⟨1, 0⟩ ∨
      r.lower ≤ (massWindow d r floor).lower ∧
      (massWindow d r floor).lower ≤ (massWindow d r floor).upper ∧
      (massWindow d r floor).upper ≤ r.upper ∧
      (floor ≤ 0 → (Scalar.isNaN d.support.lower = false → d.support.lower ≤ (massWindow d r floor).lower) ∧
        (Scalar.isNaN d.support.upper = false → (massWindow d r floor).upper ≤ d.support.upper)) := by
  have hlower := (Scalar.isFinite_iff.mp hr.isBounded_lower.isFinite).1
  have hupper := (Scalar.isFinite_iff.mp hr.isBounded_upper.isFinite).1
  have hmax (x : α) : (if Scalar.isNaN x then r.lower else Scalar.max x r.lower) = Scalar.max x r.lower := by
    split
    · rename_i hx
      unfold Scalar.max
      rw [if_pos hx]
    · rfl
  have hmin (x : α) : (if Scalar.isNaN x then r.upper else Scalar.min x r.upper) = Scalar.min x r.upper := by
    split
    · rename_i hx
      unfold Scalar.min
      rw [if_pos hx]
    · rfl
  unfold massWindow
  simp only [hmax, hmin]
  split
  · rename_i hle
    refine .inr ⟨Scalar.le_max_right _ hlower, hle, Scalar.min_le_right _ hupper, fun hfloor => ?_⟩
    obtain ⟨hfirst, hlast⟩ := quantile_of_nonpos d (LawfulRounding.half_nonpos hfloor)
    rw [hfirst, hlast]
    exact ⟨fun hnumber => Scalar.le_max_left _ hnumber, fun hnumber => Scalar.min_le_left _ hnumber⟩
  · exact .inl rfl

/-- A point that is looked at lies in the range, and in the support if no mass is asked for. -/
theorem mem_candidatePoints (hr : r.IsAccepted) (hk : k ∈ candidatePoints d r policy) :
    k.natAbs ≤ 2 ^ 53 ∧ r.lower ≤ Scalar.ofInt k ∧ Scalar.ofInt k ≤ r.upper ∧
      (policy.massFloor ≤ 0 →
        (Scalar.isNaN d.support.lower = false → d.support.lower ≤ Scalar.ofInt k) ∧
        (Scalar.isNaN d.support.upper = false → Scalar.ofInt k ≤ d.support.upper)) := by
  obtain ⟨hfirst, hlast⟩ := ValueRange.mem_integers hk
  rcases massWindow_cases hr d policy.massFloor with hwindow | ⟨hlower, hle, hupper, hsupport⟩
  · rw [hwindow] at hfirst hlast
    have hone : (ValueRange.mk 1 0 : ValueRange α).first = 1 := Scalar.toInt64_ceil_ofInt (i := 1) (by decide)
    have hzero := (LawfulIntegers.ofInt_le_iff (x := (0 : α)) (i := 1)
      (LawfulBounds.isFinite_ofNat (Nat.zero_le _)) (by decide)).mpr (hone ▸ hfirst.trans hlast)
    exact absurd hzero not_one_le_zero
  · have hbounded := hr.isBounded_lower.of_between hr.isBounded_upper hlower (LawfulOrder.le_trans hle hupper)
    have hbounded' := hr.isBounded_lower.of_between hr.isBounded_upper (LawfulOrder.le_trans hlower hle) hupper
    have hlow := hbounded.natAbs_ceil_le
    have hhigh := hbounded'.natAbs_floor_le
    unfold ValueRange.first at hfirst
    unfold ValueRange.last at hlast
    have hsize : k.natAbs ≤ 2 ^ 53 := by omega
    have habove := (LawfulIntegers.le_ofInt_iff hbounded.isFinite hsize).mpr hfirst
    have hbelow := (LawfulIntegers.ofInt_le_iff hbounded'.isFinite hsize).mpr hlast
    refine ⟨hsize, LawfulOrder.le_trans hlower habove, LawfulOrder.le_trans hbelow hupper, fun hfloor => ?_⟩
    exact ⟨fun hnumber => LawfulOrder.le_trans ((hsupport hfloor).1 hnumber) habove,
      fun hnumber => LawfulOrder.le_trans hbelow ((hsupport hfloor).2 hnumber)⟩

variable [LawfulScalar α] [LawfulExp α]

omit [LawfulFloor α] [LawfulIntegers α] [LawfulRounding α] in
/-- Where mass is asked for, points outside of the support have too little of it. -/
theorem contains_of_isCoveredPoint (h : isCoveredPoint d policy k = true)
    (hfloor : ¬ policy.massFloor ≤ 0) : d.support.contains (Scalar.ofInt k) = true := by
  have hmass : policy.massFloor ≤ Scalar.exp (d.lnDensity (Scalar.ofInt k)) := by
    simpa [isCoveredPoint] using h
  have hpos : 0 < policy.massFloor :=
    Scalar.lt_of_not_le (LawfulBounds.isNaN_of_le hmass).1 LawfulOrder.isNaN_zero hfloor
  by_contra houtside
  have hbottom : Scalar.isBottom (d.lnDensity (Scalar.ofInt k)) = true := by
    unfold Distribution.lnDensity
    rw [if_pos (by simp [Bool.eq_false_of_not_eq_true houtside])]
    unfold Scalar.isBottom
    rw [LawfulScalar.negInfinity_beq_self, Bool.or_true]
  exact LawfulExp.not_pos_exp_of_isBottom hbottom (Scalar.lt_of_lt_of_le hpos hmass)

/-- A covered point lies in the range, and among the values that the family may have. -/
theorem covered_mem (hr : r.IsAccepted) (hk : k ∈ candidatePoints d r policy)
    (h : isCoveredPoint d policy k = true) :
    k.natAbs ≤ 2 ^ 53 ∧
      Scalar.max r.lower (Support.ofFamily d.family : Support α).lower ≤ Scalar.ofInt k ∧
      Scalar.ofInt k ≤ Scalar.min r.upper (Support.ofFamily d.family : Support α).upper := by
  obtain ⟨hsize, hlower, hupper, hsupport⟩ := mem_candidatePoints hr hk
  have hnumber := (Scalar.isFinite_iff.mp (LawfulIntegers.isFinite_ofInt (α := α) hsize)).1
  have hends : (Scalar.isNaN d.support.lower = false → d.support.lower ≤ Scalar.ofInt k) ∧
      (Scalar.isNaN d.support.upper = false → Scalar.ofInt k ≤ d.support.upper) := by
    by_cases hfloor : policy.massFloor ≤ 0
    · exact hsupport hfloor
    · have hcontains := contains_of_isCoveredPoint h hfloor
      simp only [Support.contains, Bool.and_eq_true, decide_eq_true_eq] at hcontains
      exact ⟨fun _ => hcontains.1.1, fun _ => hcontains.1.2⟩
  refine ⟨hsize, Scalar.max_le hlower ?_, Scalar.le_min hupper ?_⟩
  · rcases d.support_lower_eq with hnone | hsame
    · rw [hnone]
      exact LawfulBounds.negInfinity_le hnumber
    · exact hsame ▸ hends.1 (hsame ▸ (Support.isNaN_ofFamily d.family).1)
  · rcases d.support_upper_eq with hnone | hsame
    · rw [hnone]
      exact LawfulBounds.le_infinity hnumber
    · exact hsame ▸ hends.2 (hsame ▸ (Support.isNaN_ofFamily d.family).2)

variable [LawfulCounts α]

/-- A discrete distribution covers no more points than its family could. -/
theorem coverage_le_of_isDiscrete (hd : d.isDiscrete = true) (hr : r.IsAccepted)
    (reference : Option (Distribution α))
    (hpoints : (r.integers policy.maxPoints.toNat).length ≤ 2 ^ 53) :
    coverage d r reference policy ≤ maxCoverage d.family r reference policy := by
  unfold coverage maxCoverage
  rw [if_pos hd, if_pos (show d.family.isDiscrete = true from hd)]
  rcases Nat.eq_zero_or_pos ((candidatePoints d r policy).countP (isCoveredPoint d policy)) with hnone | hsome
  · rw [hnone]
    exact Nat.zero_le _
  obtain ⟨k, hk, hcovered⟩ := List.countP_pos_iff.mp hsome
  obtain ⟨_, hlower, hupper⟩ := covered_mem hr hk hcovered
  let shared : ValueRange α := ⟨Scalar.max r.lower (Support.ofFamily d.family : Support α).lower,
    Scalar.min r.upper (Support.ofFamily d.family : Support α).upper⟩
  have habove : r.lower ≤ shared.lower :=
    Scalar.le_max_left _ (Scalar.isFinite_iff.mp hr.isBounded_lower.isFinite).1
  have hbelow : shared.upper ≤ r.upper :=
    Scalar.min_le_left _ (Scalar.isFinite_iff.mp hr.isBounded_upper.isFinite).1
  have hlow : Scalar.IsBounded shared.lower := hr.isBounded_lower.of_between hr.isBounded_upper habove
    (LawfulOrder.le_trans hlower (LawfulOrder.le_trans hupper hbelow))
  have hhigh : Scalar.IsBounded shared.upper := hr.isBounded_lower.of_between hr.isBounded_upper
    (LawfulOrder.le_trans habove (LawfulOrder.le_trans hlower hupper)) hbelow
  -- the integers that the range shares with the support are some of those of the range
  have hfirst : r.first ≤ shared.first :=
    (LawfulIntegers.le_ofInt_iff hr.isBounded_lower.isFinite hlow.natAbs_ceil_le).mp
      (LawfulOrder.le_trans habove ((LawfulIntegers.le_ofInt_iff hlow.isFinite hlow.natAbs_ceil_le).mpr le_rfl))
  have hlast : shared.last ≤ r.last :=
    (LawfulIntegers.ofInt_le_iff hr.isBounded_upper.isFinite hhigh.natAbs_floor_le).mp
      (LawfulOrder.le_trans ((LawfulIntegers.ofInt_le_iff hhigh.isFinite hhigh.natAbs_floor_le).mpr le_rfl) hbelow)
  rw [ValueRange.integers_eq, List.length_map, List.length_range] at hpoints
  have hcount := LawfulCounts.toUInt64_count (n := policy.maxPoints) hlow hhigh
    (show min (shared.last - shared.first + 1) _ ≤ 2 ^ 53 by omega)
  refine le_of_le_of_eq (le_min ?_ ?_) hcount.symm
  · refine ValueRange.countP_integers_le fun k hk hcovered => ?_
    obtain ⟨hsize, hlower, hupper⟩ := covered_mem hr hk hcovered
    exact ⟨(LawfulIntegers.le_ofInt_iff hlow.isFinite hsize).mp hlower,
      (LawfulIntegers.ofInt_le_iff hhigh.isFinite hsize).mp hupper⟩
  · exact List.countP_le_length.trans (length_integers_le _ _)

end Points

section Bins

theorem mem_of_mem_stretches {β : Type} {edges : List β} {p : β × β} (h : p ∈ ValueRange.stretches edges) :
    p.1 ∈ edges ∧ p.2 ∈ edges := by
  obtain ⟨hfirst, hsecond⟩ := List.of_mem_zip h
  exact ⟨hfirst, List.mem_of_mem_drop hsecond⟩

variable [LawfulOrder α] [LawfulBounds α] {r : ValueRange α} {e : α}

/-- The edges of bins of equal mass are moved into the range. -/
theorem mem_innerEdges (hr : r.IsAccepted) (reference : Distribution α) (low high : α) (m : ℕ)
    {indices : List ℕ} {previous : α} (hlow : r.lower ≤ previous) (hhigh : previous ≤ r.upper)
    (he : e ∈ r.innerEdges reference low high m indices previous) : r.lower ≤ e ∧ e ≤ r.upper := by
  induction indices generalizing previous with
  | nil => cases he
  | cons i rest ih =>
    have hupper := (Scalar.isFinite_iff.mp hr.isBounded_upper.isFinite).1
    unfold ValueRange.innerEdges at he
    obtain ⟨edge, hedge⟩ : ∃ edge, Scalar.max (Scalar.min (Scalar.max (reference.quantile
        (low + (high - low) * Scalar.ofNat i / Scalar.ofNat m)) r.lower) r.upper) previous = edge := ⟨_, rfl⟩
    have hprevious : previous ≤ edge :=
      hedge ▸ Scalar.le_max_right _ (LawfulBounds.isNaN_of_le hhigh).1
    have hle : edge ≤ r.upper := hedge ▸ Scalar.max_le (Scalar.min_le_right _ hupper) hhigh
    simp only [hedge, List.mem_cons] at he
    rcases he with rfl | he
    · exact ⟨LawfulOrder.le_trans hlow hprevious, hle⟩
    · exact ih (LawfulOrder.le_trans hlow hprevious) hle he

variable [LawfulRounding α]

/-- The edges of the bins of a range are finite. -/
theorem isFinite_of_mem_bins (hr : r.IsAccepted) {m : ℕ} (hm : m ≤ 2 ^ 64) {p : α × α}
    (hp : p ∈ r.bins m) : Scalar.isFinite p.1 = true ∧ Scalar.isFinite p.2 = true := by
  simp only [ValueRange.bins, List.mem_map, List.mem_range] at hp
  obtain ⟨i, hi, rfl⟩ := hp
  have hedge {i : ℕ} (hi : i ≤ m) :=
    LawfulRounding.isFinite_edge hr.isBounded_lower hr.isBounded_upper (by omega) hm hi
  refine ⟨hedge hi.le, ?_⟩
  dsimp only
  split
  · exact hr.isBounded_upper.isFinite
  · exact hedge hi

theorem isFinite_of_mem_continuousBins (hr : r.IsAccepted) {reference : Option (Distribution α)} {m : ℕ}
    (hm : m ≤ 2 ^ 64) {p : α × α} (hp : p ∈ r.continuousBins reference m) :
    Scalar.isFinite p.1 = true ∧ Scalar.isFinite p.2 = true := by
  cases reference with
  | none => exact isFinite_of_mem_bins hr hm hp
  | some reference =>
    simp only [ValueRange.continuousBins, ValueRange.quantileBins] at hp
    split at hp
    · have hedge {e : α} (he : e ∈ r.lower :: (r.innerEdges reference (reference.cdf r.lower)
          (reference.cdf r.upper) m ((List.range m).drop 1) r.lower ++ [r.upper])) :
          Scalar.isFinite e = true := by
        simp only [List.mem_cons, List.mem_append, List.not_mem_nil, or_false] at he
        rcases he with rfl | he | rfl
        · exact hr.isBounded_lower.isFinite
        · have hnumber := (Scalar.isFinite_iff.mp hr.isBounded_lower.isFinite).1
          obtain ⟨hlow, hhigh⟩ := mem_innerEdges hr reference _ _ m (Scalar.le_refl hnumber)
            (Scalar.le_of_lt hr.lower_lt_upper) he
          exact Scalar.isFinite_of_between hlow hhigh hr.isBounded_lower.isFinite
            hr.isBounded_upper.isFinite
        · exact hr.isBounded_upper.isFinite
      obtain ⟨hfirst, hsecond⟩ := mem_of_mem_stretches hp
      exact ⟨hedge hfirst, hedge hsecond⟩
    · exact isFinite_of_mem_bins hr hm hp

end Bins

namespace Distribution

/-- The distribution function is 0 at the lower end of the support, if that is finite. -/
def StartsAtZero (d : Distribution α) : Prop :=
  ∀ x, Scalar.isFinite x = true → (x == d.support.lower) = true → (d.cdf x == 0) = true

variable [LawfulOrder α] {d : Distribution α} {a b x : α}

theorem zero_le_mass (d : Distribution α) (a b : α) : 0 ≤ d.mass a b := by
  have hzero : Scalar.isNaN (0 : α) = false := LawfulOrder.isNaN_zero
  unfold mass
  split
  · exact Scalar.le_refl hzero
  · split <;> exact Scalar.le_max_right _ hzero

theorem cdf_beq_zero (hd : d.StartsAtZero) (hx : Scalar.isFinite x = true) (h : x ≤ d.support.lower) :
    (d.cdf x == 0) = true := by
  have hnumber := (Scalar.isFinite_iff.mp hx).1
  by_cases hlt : x < d.support.lower
  · unfold cdf
    rw [if_neg (by simp [hnumber]), if_pos hlt, LawfulOrder.beq_iff_le_le, and_self]
    exact Scalar.le_refl LawfulOrder.isNaN_zero
  · have hle : d.support.lower ≤ x := by
      by_contra hnot
      exact hlt (LawfulOrder.lt_iff_le_not_le.mpr ⟨h, hnot⟩)
    exact hd x hx (LawfulOrder.beq_iff_le_le.mpr ⟨h, hle⟩)

variable [LawfulRounding α]

theorem mass_nonpos_of_beq {c : α} (hd : d.isDiscrete = false) (hc : Scalar.isFinite c = true)
    (ha : (d.cdf a == c) = true) (hb : (d.cdf b == c) = true) : d.mass a b ≤ 0 := by
  have hzero : (0 : α) ≤ 0 := Scalar.le_refl LawfulOrder.isNaN_zero
  have hle : d.cdf b ≤ d.cdf a :=
    (LawfulOrder.beq_iff_le_le.mp (Scalar.beq_trans hb (by rwa [Scalar.beq_comm]))).1
  unfold mass
  split
  · exact hzero
  · rw [hd, if_neg Bool.false_ne_true]
    exact Scalar.max_le (LawfulRounding.sub_nonpos (Scalar.isFinite_of_beq hb hc)
      (Scalar.isFinite_of_beq ha hc) hle) hzero

variable [LawfulBounds α] [LawfulFloor α] [LawfulIntegers α]

omit [LawfulRounding α] in
/-- Only beta distributions end at a finite number, whatever their parameters: at 1. -/
theorem cdf_beq_one (hd : d.isDiscrete = false) (hx : Scalar.isFinite x = true)
    (h : (Support.ofFamily d.family : Support α).upper ≤ x) : (d.cdf x == 1) = true := by
  have hnumber := (Scalar.isFinite_iff.mp hx).1
  cases d with
  | beta a b =>
    have hlow : ¬ x < (beta a b).support.lower :=
      fun hlt => not_one_le_zero (LawfulOrder.le_trans h (Scalar.le_of_lt hlt))
    have hhigh : (beta a b).support.upper ≤ x := h
    have hone : Scalar.isNaN (1 : α) = false := (LawfulBounds.isNaN_of_le h).1
    unfold cdf
    rw [if_neg (by simp [hnumber]), if_neg hlow, if_pos hhigh, LawfulOrder.beq_iff_le_le, and_self]
    exact Scalar.le_refl hone
  | bernoulli | betaBinomial | binomial | discreteUniform | geometric | poisson | categorical
  | constant => cases hd
  | cauchy | exponential | gamma | laplace | normal | studentT | truncatedNormal | uniform =>
    exact absurd h (Scalar.not_le_of_lt (Scalar.lt_infinity hx))

/-- A bin without values that the family may have holds no mass. -/
theorem mass_nonpos (hd : d.isDiscrete = false) (hstart : d.StartsAtZero) (ha : Scalar.isFinite a = true)
    (hb : Scalar.isFinite b = true)
    (houtside : ¬ ((Support.ofFamily d.family : Support α).lower < b ∧
      a < (Support.ofFamily d.family : Support α).upper)) : d.mass a b ≤ 0 := by
  have hnumbera := (Scalar.isFinite_iff.mp ha).1
  have hnumberb := (Scalar.isFinite_iff.mp hb).1
  obtain ⟨hlower, hupper⟩ := Support.isNaN_ofFamily (α := α) d.family
  by_cases hle : a ≤ b
  · rcases not_and_or.mp houtside with hbelow | habove
    · have hble := Scalar.le_of_not_lt hlower hnumberb hbelow
      rcases d.support_lower_eq with hnone | hsame
      · exact absurd (hnone ▸ Scalar.negInfinity_lt hb) hbelow
      · rw [← hsame] at hble
        exact mass_nonpos_of_beq hd (LawfulBounds.isFinite_ofNat (Nat.zero_le _))
          (cdf_beq_zero hstart ha (LawfulOrder.le_trans hle hble)) (cdf_beq_zero hstart hb hble)
    · have hale := Scalar.le_of_not_lt hnumbera hupper habove
      exact mass_nonpos_of_beq hd (LawfulBounds.isFinite_ofNat (by norm_num))
        (cdf_beq_one hd ha hale) (cdf_beq_one hd hb (LawfulOrder.le_trans hale hle))
  · unfold mass
    rw [if_pos (Scalar.lt_of_not_le hnumbera hnumberb hle)]
    exact Scalar.le_refl LawfulOrder.isNaN_zero

end Distribution

section Bounds

variable [LawfulOrder α] {d : Distribution α} {r : ValueRange α} {policy : CoveragePolicy α}
  {reference : Option (Distribution α)}

/-- Where no mass is asked for, every bin counts as covered. -/
theorem coverage_of_nonpos (hd : d.isDiscrete = false) (hfloor : policy.massFloor ≤ 0) :
    coverage d r reference policy = (r.continuousBins reference policy.minimum.toNat).length := by
  unfold coverage
  rw [hd, if_neg Bool.false_ne_true, List.countP_eq_length]
  exact fun p _ => decide_eq_true (LawfulOrder.le_trans hfloor (d.zero_le_mass p.1 p.2))

variable [LawfulBounds α] [LawfulRounding α] [LawfulFloor α] [LawfulIntegers α]

/-- Where some is, a continuous distribution covers no more bins than its family could. -/
theorem coverage_le_of_pos (hd : d.isDiscrete = false) (hstart : d.StartsAtZero) (hr : r.IsAccepted)
    (hfloor : ¬ policy.massFloor ≤ 0) :
    coverage d r reference policy ≤ maxCoverage d.family r reference policy := by
  have hfamily : d.family.isDiscrete = false := hd
  unfold coverage maxCoverage
  rw [hd, hfamily, if_neg Bool.false_ne_true, if_neg Bool.false_ne_true]
  refine List.countP_mono_left fun p hp hcovered => ?_
  obtain ⟨ha, hb⟩ := isFinite_of_mem_continuousBins hr policy.minimum.toNat_lt.le hp
  rw [decide_eq_true_eq] at hcovered
  by_contra houtside
  exact hfloor (LawfulOrder.le_trans hcovered
    (d.mass_nonpos hd hstart ha hb fun h => houtside (by simpa using h)))

end Bounds

namespace ScalarGenerator

variable {g : ScalarGenerator α} {d : Distribution α}

/-- A family that is left out, or refused with the others, cannot cover enough. -/
theorem maxCoverage_lt_minimum {f : Family} (hf : f ∈ g.families)
    (h : f ∉ g.reachableFamilies ∨ ∃ e, g.checkReachable = .error e) :
    g.maxCoverage f < g.policy.minimum.toNat := by
  rcases h with hleft | ⟨e, hrefused⟩
  · simpa [reachableFamilies, isAdequate, hf] using hleft
  · by_contra hle
    rw [checkReachable_eq hf (not_lt.mp hle)] at hrefused
    cases hrefused

variable [LawfulScalar α] [LawfulExp α] [LawfulOrder α] [LawfulBounds α] [LawfulRounding α]
  [LawfulFloor α] [LawfulIntegers α] [LawfulCounts α]

/-- A distribution covers no more points or bins than its family could, and those of a family that is left
out or refused do not cover enough: except for bins if no mass is asked for, since all of them are covered
then. -/
theorem coverage_le_maxCoverage {lower upper : α} (hr : ValueRange.ofBounds lower upper = .ok g.range)
    (hpoints : d.isDiscrete = true → (g.range.integers g.policy.maxPoints.toNat).length ≤ 2 ^ 53)
    (hstart : d.isDiscrete = false → d.StartsAtZero) :
    (d.isDiscrete = true ∨ ¬ g.policy.massFloor ≤ 0 → g.coverage d ≤ g.maxCoverage d.family ∧
      (d.family ∈ g.families → d.family ∉ g.reachableFamilies ∨ (∃ e, g.checkReachable = .error e) →
        g.isAdequate (g.coverage d) = false)) ∧
    (d.isDiscrete = false → g.policy.massFloor ≤ 0 →
      g.coverage d = (g.range.continuousBins g.reference g.policy.minimum.toNat).length) := by
  have haccepted := ValueRange.isAccepted_of_ofBounds hr
  refine ⟨fun hcase => ?_, coverage_of_nonpos⟩
  have hle : g.coverage d ≤ g.maxCoverage d.family := by
    cases hd : d.isDiscrete with
    | true => exact coverage_le_of_isDiscrete hd haccepted g.reference (hpoints hd)
    | false => exact coverage_le_of_pos hd (hstart hd) haccepted (hcase.resolve_left (by simp [hd]))
  refine ⟨hle, fun hfamily hunreachable => ?_⟩
  exact decide_eq_false (not_le.mpr (hle.trans_lt (maxCoverage_lt_minimum hfamily hunreachable)))

/-- Delays of a range without positive numbers. -/
noncomputable def delay (massFloor : Exact) : ScalarGenerator Exact :=
  ⟨"delay", false, realFamilies, ⟨.real (-1), .real 0⟩, ⟨1, massFloor, 100, 100000⟩, none, 0⟩

theorem ofBounds_delay (massFloor : Exact) :
    ValueRange.ofBounds (.real (-1)) (.real 0) = .ok (delay massFloor).range :=
  ValueRange.ofBounds_real (by norm_num) (by norm_num) (by norm_num)

section Exponential

open Exact

theorem cdf_exponential (x : ℝ) :
    (Distribution.exponential (1 : Exact)).cdf (real x) = real (1 - Real.exp (-max x 0)) := by
  have hupper : ¬ (Distribution.exponential (1 : Exact)).support.upper ≤ real x := not_infinity_le_real x
  have hlower : (Distribution.exponential (1 : Exact)).support.lower = real 0 := zero_eq
  unfold Distribution.cdf
  rw [if_neg (by simp), hlower, if_neg hupper]
  simp only [Distribution.hasClosedForm, Distribution.closedCdf, Exponential.cdf, if_true, zero_eq, one_eq,
    real_lt, neg_real, real_mul, exp_real, real_sub]
  split
  · rename_i h
    simp [max_eq_right h.le]
  · rename_i h
    simp [max_eq_left (not_lt.mp h)]

theorem startsAtZero_exponential : (Distribution.exponential (1 : Exact)).StartsAtZero := by
  intro x hx hzero
  obtain ⟨x, rfl⟩ := isFinite_iff.mp hx
  have hlower : (Distribution.exponential (1 : Exact)).support.lower = real 0 := zero_eq
  rw [hlower, real_beq, decide_eq_true_iff] at hzero
  rw [cdf_exponential, zero_eq, real_beq, hzero]
  simp

/-- The distribution function does not decrease, and is 0 and 1 outside of the support. -/
theorem cdf_exponential_lawful :
    (∀ x y : Exact, x ≤ y → (Distribution.exponential (1 : Exact)).cdf x ≤
      (Distribution.exponential (1 : Exact)).cdf y) ∧
    (∀ x : Exact, x ≤ 0 → (Distribution.exponential (1 : Exact)).cdf x = 0) ∧
    ∀ x : Exact, Scalar.infinity ≤ x → (Distribution.exponential (1 : Exact)).cdf x = 1 := by
  have hlower : (Distribution.exponential (1 : Exact)).support.lower = real 0 := zero_eq
  have hbottom : (Distribution.exponential (1 : Exact)).cdf negInfinity = real 0 := by
    have hlt : negInfinity < real 0 := trivial
    unfold Distribution.cdf
    rw [if_neg (by simp), hlower, if_pos hlt, zero_eq]
  have htop : (Distribution.exponential (1 : Exact)).cdf infinity = real 1 := by
    have hle : (Distribution.exponential (1 : Exact)).support.upper ≤ infinity := .inr ⟨rfl, nofun⟩
    unfold Distribution.cdf
    rw [if_neg (by simp), hlower, if_neg (by exact id), if_pos hle, one_eq]
  have hnonneg (x : ℝ) : Real.exp (-max x 0) ≤ 1 := Real.exp_le_one_iff.mpr (by simp)
  have hpos (x : ℝ) : 0 < Real.exp (-max x 0) := Real.exp_pos _
  refine ⟨fun x y h => ?_, fun x h => ?_, fun x h => ?_⟩
  · obtain ⟨hx, hy⟩ := LawfulBounds.isNaN_of_le h
    rw [← Bool.not_eq_true, isNaN_iff] at hx hy
    cases x <;> cases y <;>
      first
      | contradiction
      | (rcases h with h | ⟨h, _⟩ <;> contradiction)
      | simp only [hbottom, htop, cdf_exponential, real_le]
    · exact le_rfl
    · linarith [hnonneg ‹ℝ›]
    · norm_num
    · rename_i x y
      have hmax : max x 0 ≤ max y 0 := max_le_max_right 0 (real_le.mp h)
      linarith [Real.exp_le_exp.mpr (neg_le_neg hmax)]
    · linarith [hpos ‹ℝ›]
    · exact le_rfl
  · rcases nonpos_iff.mp h with rfl | ⟨x, rfl, hx⟩
    · rw [hbottom, zero_eq]
    · rw [cdf_exponential, max_eq_right hx, zero_eq]
      simp
  · cases x with
    | infinity => rw [htop, one_eq]
    | real x => exact absurd h (not_infinity_le_real x)
    | nan | negInfinity => rcases h with h | ⟨h, _⟩ <;> cases h

end Exponential

theorem bins_delay (massFloor : Exact) : (delay massFloor).range.bins 1 = [(.real (-1), .real 0)] := by
  simp [delay, ValueRange.bins, ValueRange.width]

theorem maxCoverage_delay (massFloor : Exact) : (delay massFloor).maxCoverage .exponential = 0 := by
  have hbin : ¬ (Support.ofFamily .exponential : Support Exact).lower < .real 0 := by
    change ¬ (0 : Exact) < .real 0
    simp [Exact.zero_eq]
  unfold ScalarGenerator.maxCoverage InfoFlow.maxCoverage
  rw [if_neg (by decide)]
  change ((delay massFloor).range.bins 1).countP _ = 0
  rw [bins_delay]
  simp [hbin]

/-- Where some mass is asked for, there is none below 0. -/
theorem coverage_delay :
    (delay 0.5).coverage (.exponential 1) ≤ (delay 0.5).maxCoverage .exponential := by
  have hfloor : ¬ (0.5 : Exact) ≤ 0 := by
    rw [Exact.half_eq, Exact.zero_eq, Exact.real_le]
    norm_num
  exact ((coverage_le_maxCoverage (d := .exponential 1) (ofBounds_delay 0.5) nofun
    fun _ => startsAtZero_exponential).1 (.inr hfloor)).1

/-- Where none is asked for, the bin below 0 counts as covered, although the family has no value in it. -/
theorem exponential_overruns :
    ValueRange.ofBounds (.real (-1)) (.real 0) = .ok (delay 0).range ∧
    ((∀ x y : Exact, x ≤ y → (Distribution.exponential (1 : Exact)).cdf x ≤
        (Distribution.exponential (1 : Exact)).cdf y) ∧
      (∀ x : Exact, x ≤ 0 → (Distribution.exponential (1 : Exact)).cdf x = 0) ∧
      ∀ x : Exact, Scalar.infinity ≤ x → (Distribution.exponential (1 : Exact)).cdf x = 1) ∧
    (delay 0).maxCoverage .exponential = 0 ∧ (delay 0).coverage (.exponential 1) = 1 ∧
    Family.exponential ∉ (delay 0).reachableFamilies ∧
    (delay 0).isAdequate ((delay 0).coverage (.exponential 1)) = true := by
  have hcoverage : (delay 0).coverage (.exponential 1) = 1 := by
    refine (coverage_of_nonpos rfl Exact.zero_le_zero).trans ?_
    change ((delay 0).range.bins 1).length = 1
    rw [length_bins]
  refine ⟨ofBounds_delay 0, cdf_exponential_lawful, maxCoverage_delay 0, hcoverage, ?_, ?_⟩
  · unfold reachableFamilies isAdequate
    rw [List.mem_filter, maxCoverage_delay]
    simp [delay]
  · rw [hcoverage]
    rfl

end ScalarGenerator

end InfoFlow
