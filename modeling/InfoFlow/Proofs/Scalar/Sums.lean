import InfoFlow.Proofs.Scalar.DoubleSteps
import InfoFlow.Proofs.Scalar.Magnitudes

namespace InfoFlow.Double

open Float.Model Float.Model.UnpackedFloat

variable {x y : Float} {xs : List Float}

/-- A finite double that is not negative. -/
structure IsAmount (x : Float) : Prop where
  isFinite : (unpacked x).isFinite = true
  nonneg : 0 ≤ value (unpacked x)

theorem isAmount_zero : IsAmount 0 := ⟨rfl, le_rfl⟩

theorem isAmount_of_not_lt (hfinite : Scalar.isFinite x = true) (h : ¬ x < 0) : IsAmount x := by
  rw [isFinite_iff] at hfinite
  rw [lt_iff_value hfinite rfl, not_lt] at h
  exact ⟨hfinite, h⟩

theorem IsAmount.zero_le (hx : IsAmount x) : 0 ≤ x := (le_iff_value rfl hx.isFinite).mpr hx.nonneg

section Rounding

variable {q r : ℚ}

theorem isStored_one : IsStored 1 := by
  have hstored := isStored_intCast (i := 1) (by norm_num)
  rwa [Int.cast_one] at hstored

/-- What stands for a number that is not negative is an amount, unless it overflows. -/
theorem Rounds.isAmount (h : Rounds q (unpacked x)) (hfinite : (unpacked x).isFinite = true)
    (hq : 0 ≤ q) : IsAmount x := by
  refine ⟨hfinite, ?_⟩
  rw [h.value_eq hfinite, ← rounded_of_isStored isStored_zero]
  exact rounded_mono hq

theorem Rounds.isAmount_of_le (h : Rounds q (unpacked x)) (hq : 0 ≤ q) (hr : IsStored r) (hle : q ≤ r) :
    IsAmount x ∧ value (unpacked x) ≤ r := by
  obtain ⟨hfinite, hbound⟩ := h.abs_value_le hr (by rwa [abs_of_nonneg hq])
  exact ⟨h.isAmount hfinite hq, (le_abs_self _).trans hbound⟩

end Rounding

section Sums

theorem add_cases (hx : IsAmount x) (hy : IsAmount y) : unpacked (x + y) = .infinity .positive ∨
    IsAmount (x + y) ∧ value (unpacked x) ≤ value (unpacked (x + y)) ∧
      value (unpacked y) ≤ value (unpacked (x + y)) := by
  have hlex : value (unpacked x) ≤ value (unpacked x) + value (unpacked y) := by linarith [hy.nonneg]
  have hley : value (unpacked y) ≤ value (unpacked x) + value (unpacked y) := by linarith [hx.nonneg]
  have hxsum := rounded_mono hlex
  have hysum := rounded_mono hley
  rw [rounded_of_isStored (isStored_value x)] at hxsum
  rw [rounded_of_isStored (isStored_value y)] at hysum
  have hsum := rounds_add hx.isFinite hy.isFinite
  cases hu : unpacked (x + y) with
  | infinity s =>
    rw [hu] at hsum
    cases hsum with
    | finite _ hfinite _ => cases hfinite
    | above => exact .inl rfl
    | below h => linarith [overflow_pos, hx.nonneg]
  | notANumber =>
    rw [hu] at hsum
    cases hsum with
    | finite _ hfinite _ => cases hfinite
  | zero | finite =>
    have hfinite : (unpacked (x + y)).isFinite = true := by rw [hu]; rfl
    have hvalue := hsum.value_eq hfinite
    rw [← hvalue] at hxsum hysum
    exact .inr ⟨⟨hfinite, hx.nonneg.trans hxsum⟩, hu ▸ hxsum, hu ▸ hysum⟩

theorem foldl_add_infinity {start : Float} (hstart : unpacked start = .infinity .positive)
    (hxs : ∀ x ∈ xs, IsAmount x) : unpacked (xs.foldl (· + ·) start) = .infinity .positive := by
  induction xs generalizing start with
  | nil => exact hstart
  | cons x xs ih =>
    obtain ⟨hx, hrest⟩ := List.forall_mem_cons.mp hxs
    have hfinite := hx.isFinite
    refine ih ?_ hrest
    rw [unpacked_add, hstart]
    cases hu : unpacked x with
    | notANumber | infinity => rw [hu] at hfinite; cases hfinite
    | zero | finite => exact repack_infinity .positive

theorem foldl_add_cases {start : Float} (hstart : IsAmount start) (hxs : ∀ x ∈ xs, IsAmount x) :
    unpacked (xs.foldl (· + ·) start) = .infinity .positive ∨ IsAmount (xs.foldl (· + ·) start) ∧
      ∀ x ∈ start :: xs, value (unpacked x) ≤ value (unpacked (xs.foldl (· + ·) start)) := by
  induction xs generalizing start with
  | nil => exact .inr ⟨hstart, by simp⟩
  | cons x xs ih =>
    obtain ⟨hx, hrest⟩ := List.forall_mem_cons.mp hxs
    rw [List.foldl_cons]
    rcases add_cases hstart hx with hinfinite | ⟨hsum, hlestart, hlex⟩
    · exact .inl (foldl_add_infinity hinfinite hrest)
    · refine (ih hsum hrest).imp_right fun ⟨hfinite, hle⟩ => ⟨hfinite, ?_⟩
      obtain ⟨hlesum, hle⟩ := List.forall_mem_cons.mp hle
      exact List.forall_mem_cons.mpr ⟨hlestart.trans hlesum,
        List.forall_mem_cons.mpr ⟨hlex.trans hlesum, hle⟩⟩

/-- A sum is infinite, or not below any of its terms. -/
theorem sum_cases (hxs : ∀ x ∈ xs, IsAmount x) : unpacked (Scalar.sum xs) = .infinity .positive ∨
    IsAmount (Scalar.sum xs) ∧ ∀ x ∈ xs, value (unpacked x) ≤ value (unpacked (Scalar.sum xs)) :=
  (foldl_add_cases isAmount_zero hxs).imp_right fun ⟨hsum, hle⟩ =>
    ⟨hsum, (List.forall_mem_cons.mp hle).2⟩

theorem isAmount_sum (hxs : ∀ x ∈ xs, IsAmount x) (hfinite : Scalar.isFinite (Scalar.sum xs) = true) :
    IsAmount (Scalar.sum xs) ∧ ∀ x ∈ xs, value (unpacked x) ≤ value (unpacked (Scalar.sum xs)) := by
  refine (sum_cases hxs).resolve_left fun hinfinite => ?_
  rw [isFinite_iff, hinfinite] at hfinite
  cases hfinite

theorem value_sum_eq_zero (hxs : ∀ x ∈ xs, IsAmount x) (hzero : ∀ x ∈ xs, value (unpacked x) = 0) :
    (unpacked (Scalar.sum xs)).isFinite = true ∧ value (unpacked (Scalar.sum xs)) = 0 := by
  suffices h : ∀ start, (unpacked start).isFinite = true → value (unpacked start) = 0 →
      (unpacked (xs.foldl (· + ·) start)).isFinite = true ∧
        value (unpacked (xs.foldl (· + ·) start)) = 0 from h 0 rfl rfl
  induction xs with
  | nil => exact fun _ hfinite hvalue => ⟨hfinite, hvalue⟩
  | cons x xs ih =>
    obtain ⟨hx, hrest⟩ := List.forall_mem_cons.mp hxs
    obtain ⟨hxzero, hrestzero⟩ := List.forall_mem_cons.mp hzero
    intro start hfinite hvalue
    have hsum := rounds_add hfinite hx.isFinite
    rw [hvalue, hxzero, add_zero] at hsum
    obtain ⟨hsumfinite, hsumvalue⟩ := hsum.value_eq_of_isStored isStored_zero
    exact ih hrest hrestzero _ hsumfinite hsumvalue

theorem two_zpow_le_value (hpos : 0 < value (unpacked x)) : (2 : ℚ) ^ (-1074 : ℤ) ≤ value (unpacked x) := by
  obtain ⟨i, hi⟩ := (isStored_value x).exists_multiple
  have hunit : (0 : ℚ) < 2 ^ (-1074 : ℤ) := by positivity
  rw [hi] at hpos ⊢
  have hone : 1 ≤ i := by exact_mod_cast pos_of_mul_pos_left hpos hunit.le
  exact le_mul_of_one_le_left hunit.le (by exact_mod_cast hone)

/-- Some term is a fair part of a finite sum: sums of smaller terms stop growing before. -/
theorem exists_large_term (hxs : ∀ x ∈ xs, IsAmount x) (hpos : 0 < value (unpacked (Scalar.sum xs))) :
    ∃ x ∈ xs, value (unpacked (Scalar.sum xs)) ≤ 2 ^ 64 * value (unpacked x) := by
  by_contra hnone
  push Not at hnone
  obtain ⟨hlow, hhigh⟩ := (log_eq_iff hpos _).mp rfl
  set t := Int.log 2 (value (unpacked (Scalar.sum xs))) with ht
  have hsmall : ∀ x ∈ xs, value (unpacked x) < 2 ^ (t - 63) := by
    intro x hx
    have hlt := (hnone x hx).trans hhigh
    rw [show t + 1 = 64 + (t - 63) by ring, zpow_add₀ two_ne_zero] at hlt
    exact lt_of_mul_lt_mul_left (by exact_mod_cast hlt) (by positivity)
  by_cases hleast : t - 63 < -1074
  · have hzero : ∀ x ∈ xs, value (unpacked x) = 0 := by
      intro x hx
      by_contra hne
      have hbelow := (hsmall x hx).trans_le (zpow_le_zpow_right₀ one_le_two hleast.le)
      exact absurd (two_zpow_le_value ((hxs x hx).nonneg.lt_of_ne' hne)) (not_le.mpr hbelow)
    rw [(value_sum_eq_zero hxs hzero).2] at hpos
    exact lt_irrefl 0 hpos
  · have htop : t ≤ 1023 := by
      have hoverflow := (isStored_value (Scalar.sum xs)).lt_overflow
      rw [abs_of_pos hpos, overflow] at hoverflow
      have hlt := (zpow_lt_zpow_iff_right₀ one_lt_two).mp (hlow.trans_lt hoverflow)
      omega
    have hterms : ∀ x ∈ xs, (unpacked x).isFinite = true ∧ |value (unpacked x)| ≤ 2 ^ (t - 63) := by
      intro x hx
      rw [abs_of_nonneg (hxs x hx).nonneg]
      exact ⟨(hxs x hx).isFinite, (hsmall x hx).le⟩
    have hzero : |value (unpacked 0)| ≤ 2 ^ (t - 63 + 54) := by
      rw [unpacked_zero, value_zero, abs_zero]
      positivity
    have hle := (abs_value_foldl_add_le (by omega) (by omega) hterms ⟨rfl, hzero⟩).2
    have hstill := (le_abs_self _).trans hle
    have hless : (2 : ℚ) ^ (t - 63 + 54) < 2 ^ t := zpow_lt_zpow_right₀ one_lt_two (by omega)
    exact absurd (hlow.trans hstill) (not_le.mpr hless)

end Sums

section Quotients

/-- A part of a finite whole is an amount up to 1, and not lost if it is a fair part. -/
theorem isAmount_div (hx : IsAmount x) (hy : IsAmount y) (hpos : 0 < value (unpacked y))
    (hle : value (unpacked x) ≤ value (unpacked y)) : IsAmount (x / y) ∧ value (unpacked (x / y)) ≤ 1 ∧
      (value (unpacked y) ≤ 2 ^ 64 * value (unpacked x) → 0 < value (unpacked (x / y))) := by
  have hquotient := rounds_div hx.isFinite hy.isFinite hpos.ne'
  obtain ⟨hamount, hone⟩ := hquotient.isAmount_of_le (div_nonneg hx.nonneg hpos.le) isStored_one
    ((div_le_one hpos).mpr hle)
  refine ⟨hamount, hone, fun hfair => ?_⟩
  have hleast : (2 : ℚ) ^ (-64 : ℤ) ≤ value (unpacked x) / value (unpacked y) := by
    rw [le_div_iff₀ hpos, zpow_neg, inv_mul_le_iff₀ (by positivity)]
    exact_mod_cast hfair
  have hmono := rounded_mono hleast
  rw [rounded_of_isStored (isStored_two_pow (by norm_num) (by norm_num)),
    ← hquotient.value_eq hamount.isFinite] at hmono
  exact lt_of_lt_of_le (by positivity) hmono

/-- The parts of a finite whole add up to a positive finite number again. -/
theorem isAmount_sum_div (hxs : ∀ x ∈ xs, IsAmount x) (hfinite : Scalar.isFinite (Scalar.sum xs) = true)
    (hpos : 0 < value (unpacked (Scalar.sum xs))) : (∀ x ∈ xs.map (· / Scalar.sum xs), IsAmount x) ∧
      IsAmount (Scalar.sum (xs.map (· / Scalar.sum xs))) ∧
      0 < value (unpacked (Scalar.sum (xs.map (· / Scalar.sum xs)))) := by
  obtain ⟨hsum, hle⟩ := isAmount_sum hxs hfinite
  have hpart {x : Float} (hx : x ∈ xs) := isAmount_div (hxs x hx) hsum hpos (hle x hx)
  have hamounts : ∀ x ∈ xs.map (· / Scalar.sum xs), IsAmount x :=
    List.forall_mem_map.mpr fun x hx => (hpart hx).1
  have hunits : ∀ x ∈ xs.map (· / Scalar.sum xs),
      (unpacked x).isFinite = true ∧ |value (unpacked x)| ≤ 2 ^ (0 : ℤ) := by
    refine List.forall_mem_map.mpr fun x hx => ⟨(hpart hx).1.isFinite, ?_⟩
    rw [abs_of_nonneg (hpart hx).1.nonneg, zpow_zero]
    exact (hpart hx).2.1
  have hzero : |value (unpacked 0)| ≤ 2 ^ (0 + 54 : ℤ) := by
    rw [unpacked_zero, value_zero, abs_zero]
    positivity
  have htotal := (abs_value_foldl_add_le (by norm_num) (by norm_num) hunits ⟨rfl, hzero⟩).1
  obtain ⟨hamount, hbelow⟩ := isAmount_sum hamounts (isFinite_iff.mpr htotal)
  obtain ⟨x, hx, hlarge⟩ := exists_large_term hxs hpos
  exact ⟨hamounts, hamount, ((hpart hx).2.2 hlarge).trans_le (hbelow _ (List.mem_map_of_mem hx))⟩

/-- Parts of an infinite whole are lost. -/
theorem div_infinity (hx : IsAmount x) (hy : unpacked y = .infinity .positive) :
    IsAmount (x / y) ∧ value (unpacked (x / y)) = 0 := by
  have hfinite := hx.isFinite
  have hzero : ∃ s, unpacked (x / y) = .zero s := by
    rw [unpacked_div, hy]
    cases hu : unpacked x with
    | notANumber | infinity => rw [hu] at hfinite; cases hfinite
    | zero | finite => exact ⟨_, repack_zero _⟩
  obtain ⟨s, hs⟩ := hzero
  exact ⟨⟨by rw [hs]; rfl, by rw [hs]; rfl⟩, by rw [hs]; rfl⟩

end Quotients

end InfoFlow.Double
