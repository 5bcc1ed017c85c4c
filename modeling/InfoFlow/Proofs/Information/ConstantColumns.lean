import InfoFlow.Proofs.Information.Preparation
import InfoFlow.Proofs.Scalar.Sums

namespace InfoFlow

open Double Float.Model

section Multiples

variable {v : ℚ} {n : ℕ} {x : Float}

/-- A double that stands for a multiple of a number. -/
structure IsMultiple (v : ℚ) (k : ℕ) (x : Float) : Prop where
  isFinite : (unpacked x).isFinite = true
  value_eq : value (unpacked x) = k * v

/-- The multiples of a number up to the `n`-th are doubles. -/
def HasExactMultiples (v : ℚ) (n : ℕ) : Prop := ∀ k ≤ n, IsStored (k * v)

/-- Multiples that are doubles are added up without rounding. -/
theorem HasExactMultiples.isAdditive (h : HasExactMultiples v n) :
    IsAdditive (IsMultiple v) fun k => k ≤ n where
  zero := ⟨rfl, by rw [Nat.cast_zero, zero_mul]; rfl⟩
  add {k l x y} hx hy hle := by
    have hsum : value (unpacked x) + value (unpacked y) = (k + l : ℕ) * v := by
      rw [hx.value_eq, hy.value_eq, Nat.cast_add, add_mul]
    obtain ⟨hfinite, hvalue⟩ := value_add hx.isFinite hy.isFinite (hsum ▸ h _ hle)
    exact ⟨hfinite, hvalue.trans hsum⟩
  mono := Nat.le_of_add_right_le

theorem HasExactMultiples.neg (h : HasExactMultiples v n) : HasExactMultiples (-v) n := by
  intro k hk
  rw [mul_neg]
  exact (h k hk).neg

/-- Whole numbers have as many exact multiples as fit into the bits of a double. -/
theorem hasExactMultiples_intCast {i : ℤ} (h : n * i.natAbs ≤ 2 ^ 53) : HasExactMultiples i n := by
  intro k hk
  have hle : ((k : ℤ) * i).natAbs ≤ 2 ^ 53 := by
    rw [Int.natAbs_mul, Int.natAbs_natCast]
    exact (Nat.mul_le_mul_right _ hk).trans h
  exact_mod_cast isStored_intCast hle

theorem isMultiple_replicate (n : ℕ) (hx : (unpacked x).isFinite = true) :
    (List.replicate n 1).Forall₂ (IsMultiple (value (unpacked x))) (List.replicate n x) := by
  have hone : IsMultiple (value (unpacked x)) 1 x := ⟨hx, by rw [Nat.cast_one, one_mul]⟩
  induction n with
  | zero => exact .nil
  | succ n ih => exact .cons hone ih

/-- What is `n` times as large as `v` is `v` again when it is divided by `n`. -/
theorem IsMultiple.div (hx : IsMultiple v n x) (hpos : 0 < n) (hn : n ≤ 2 ^ 53) (hv : IsStored v) :
    (unpacked (x / Scalar.ofNat n)).isFinite = true ∧
      value (unpacked (x / Scalar.ofNat n)) = v := by
  have hstored : IsStored (n : ℚ) := by exact_mod_cast isStored_intCast (i := n) (by simpa using hn)
  obtain ⟨hfinite, hvalue⟩ := (rounds_ofNat n).value_eq_of_isStored hstored
  have hne : (n : ℚ) ≠ 0 := by exact_mod_cast hpos.ne'
  have hquotient := rounds_div hx.isFinite hfinite (hvalue ▸ hne)
  rw [hx.value_eq, hvalue, mul_div_cancel_left₀ v hne] at hquotient
  exact hquotient.value_eq_of_isStored hv

end Multiples

section Deviations

variable {m : Matrix Float} {x : Float} {n : ℕ}

theorem zero_div_ofNat (hx : (unpacked x).isFinite = true) (hzero : value (unpacked x) = 0)
    (hpos : 0 < n) (hn : n ≤ 2 ^ 64) : (x / Scalar.ofNat n == 0) = true := by
  have hfinite : (unpacked (Scalar.ofNat n)).isFinite = true := isFinite_ofNat hn
  have hone : 1 ≤ value (unpacked (Scalar.ofNat n)) := by
    rw [(rounds_ofNat n).value_eq hfinite, ← rounded_of_isStored isStored_one]
    exact rounded_mono (by exact_mod_cast hpos)
  have hquotient := rounds_div hx hfinite (by linarith)
  rw [hzero, zero_div] at hquotient
  obtain ⟨hfinite, hvalue⟩ := hquotient.value_eq_of_isStored isStored_zero
  exact (beq_iff_value hfinite rfl).mpr hvalue

theorem sqrt_zero (hx : (x == 0) = true) : (Scalar.sqrt x == 0) = true := by
  obtain ⟨s, hs⟩ := beq_zero_iff.mp hx
  refine beq_zero_iff.mpr ⟨s, ?_⟩
  change repack (UnpackedFloat.sqrt Format.binary64 (unpacked x)) = .zero s
  rw [hs, UnpackedFloat.sqrt, repack_zero]

/-- Equal numbers do not deviate if their rounded mean is the same number. -/
theorem not_pos_columnDeviation (hx : (unpacked x).isFinite = true) (hpos : 0 < n) (hn : n ≤ 2 ^ 64)
    (hmean : (m.columnSum (List.replicate n x) / Scalar.ofNat n == x) = true) :
    ¬ 0 < m.columnDeviation (List.replicate n x) := by
  generalize hdef : m.columnSum (List.replicate n x) / Scalar.ofNat n = mean at hmean
  have hfinite : (unpacked mean).isFinite = true :=
    isFinite_iff.mp (Scalar.isFinite_of_beq hmean (isFinite_iff.mpr hx))
  have hdifference : value (unpacked x) - value (unpacked mean) = 0 :=
    sub_eq_zero.mpr ((beq_iff_value hfinite hx).mp hmean).symm
  obtain ⟨hdiff, hzero⟩ := value_sub hx hfinite (hdifference ▸ isStored_zero)
  rw [hdifference] at hzero
  have hproduct := rounds_mul hdiff hdiff
  rw [hzero, mul_zero] at hproduct
  obtain ⟨hsquare, hsquareZero⟩ := hproduct.value_eq_of_isStored isStored_zero
  obtain ⟨hsum, hsumZero⟩ : (unpacked (Scalar.sum (List.replicate n ((x - mean) * (x - mean))))).isFinite
      = true ∧ value (unpacked (Scalar.sum (List.replicate n ((x - mean) * (x - mean))))) = 0 :=
    value_sum_eq_zero (fun y hy => List.eq_of_mem_replicate hy ▸ ⟨hsquare, hsquareZero.ge⟩)
      fun y hy => List.eq_of_mem_replicate hy ▸ hsquareZero
  have hroot := sqrt_zero (zero_div_ofNat hsum hsumZero hpos hn)
  unfold Matrix.columnDeviation
  dsimp only
  rw [List.length_replicate, hdef, List.map_replicate]
  intro hlt
  exact Scalar.not_le_of_lt hlt (LawfulOrder.beq_iff_le_le.mp hroot).1

end Deviations

section Columns

variable {m : Matrix Float} {x : Float}

/-- Numbers with exact multiples have themselves as their rounded mean. -/
theorem mean_of_hasExactMultiples {n : ℕ} (hx : (unpacked x).isFinite = true)
    (h : HasExactMultiples (value (unpacked x)) n) (hpos : 0 < n) (hn : n ≤ 2 ^ 53) :
    (m.columnSum (List.replicate n x) / Scalar.ofNat n == x) = true := by
  have hsum := m.columnSum_of_isAdditive h.isAdditive (isMultiple_replicate n hx) (by simp)
  rw [List.sum_replicate, smul_eq_mul, mul_one] at hsum
  obtain ⟨hfinite, hvalue⟩ := hsum.div hpos hn (isStored_value x)
  exact (beq_iff_value hfinite hx).mpr hvalue

/-- The larger of a number and 1 does not show the sign of a zero. -/
theorem max_one_congr {y : Float} (hx : (unpacked x).isFinite = true)
    (hy : (unpacked y).isFinite = true) (h : value (unpacked x) = value (unpacked y)) :
    Scalar.max x 1 = Scalar.max y 1 := by
  by_cases hzero : value (unpacked x) = 0
  · have hone {z : Float} (hz : (unpacked z).isFinite = true) (hzero : value (unpacked z) = 0) :
        Scalar.max z 1 = 1 := by
      have hlt : z < 1 := (lt_iff_value hz rfl).mpr (by rw [hzero, value_one]; exact one_pos)
      unfold Scalar.max
      rw [if_pos hlt, ite_self]
    rw [hone hx hzero, hone hy (h ▸ hzero)]
  · rw [eq_of_value hx hy h hzero]

/-- The noise on numbers with exact multiples is in proportion to the magnitude of these numbers. -/
theorem noiseAmplitude_of_hasExactMultiples {n : ℕ} (hx : (unpacked x).isFinite = true)
    (h : HasExactMultiples (value (unpacked x)) n) (hpos : 0 < n) (hn : n ≤ 2 ^ 53) :
    noiseAmplitude (List.replicate n x) (Scalar.ofNat n) =
      1e-10 * Scalar.max (Scalar.abs x) 1 := by
  have habs : value (unpacked (Scalar.abs x)) = |value (unpacked x)| := by
    rw [unpacked_abs, value_abs]
  have habsFinite : (unpacked (Scalar.abs x)).isFinite = true :=
    isFinite_iff.mp (LawfulQuotients.isFinite_abs (isFinite_iff.mpr hx))
  have hmultiples : HasExactMultiples (value (unpacked (Scalar.abs x))) n := by
    rw [habs]
    rcases abs_choice (value (unpacked x)) with hv | hv <;> rw [hv]
    · exact h
    · exact h.neg
  have hsum : IsMultiple (value (unpacked (Scalar.abs x))) (0 + (List.replicate n 1).sum)
      (Scalar.sum (List.replicate n (Scalar.abs x))) :=
    hmultiples.isAdditive.foldl hmultiples.isAdditive.zero (isMultiple_replicate n habsFinite) (by simp)
  rw [List.sum_replicate, smul_eq_mul, mul_one, zero_add] at hsum
  obtain ⟨hfinite, hvalue⟩ := hsum.div hpos hn (isStored_value _)
  unfold noiseAmplitude
  rw [List.map_replicate, max_one_congr hfinite habsFinite hvalue]
  rfl

/-- A constant column is divided by its computed deviation, if that is not 0. It is left as it is, and gets
noise in proportion to the magnitude of its numbers, if they have exact multiples. -/
theorem scaled_constant_column {j : ℕ} (hsize : 0 < m.size) (hword : m.size ≤ 2 ^ 64)
    (hx : Scalar.isFinite x = true) (hcolumn : m.column? j = some (List.replicate m.size x)) :
    let column := List.replicate m.size x
    let deviation := m.columnDeviation column
    let y := if 0 < deviation then x / deviation else x
    m.scaled.column? j = some (List.replicate m.size y) ∧
      (∀ (σ : Type) [RandomWords σ] (noise : σ), ∃ noise' : σ,
        ((prepare m).run noise).1.column? j = some ((addNoise
          (noiseAmplitude (List.replicate m.size y) (Scalar.ofNat m.size))
          (List.replicate m.size y)).run noise').1) ∧
      ((m.columnSum column / Scalar.ofNat m.size == x) = true → y = x) ∧
      (m.size ≤ 2 ^ 53 → HasExactMultiples (value (unpacked x)) m.size → y = x ∧
        noiseAmplitude column (Scalar.ofNat m.size) = 1e-10 * Scalar.max (Scalar.abs x) 1) := by
  intro column deviation y
  have hfinite := isFinite_iff.mp hx
  have hscaled : m.scaled.column? j = some (List.replicate m.size y) := by
    rw [column?_scaled hsize.ne' hcolumn, List.map_replicate]
    by_cases hpos : 0 < deviation
    · simp only [y, deviation, column, if_pos hpos]
    · simp only [y, deviation, column, if_neg hpos, div_one_eq hfinite]
  have hmean (h : (m.columnSum column / Scalar.ofNat m.size == x) = true) : y = x :=
    if_neg (not_pos_columnDeviation hfinite hsize hword h)
  refine ⟨hscaled, fun σ _ noise => ?_, hmean, fun hexact h => ⟨hmean ?_, ?_⟩⟩
  · have hprepared := prepare_column? (σ := σ) hscaled noise
    have hrows : Nat.max m.size 1 = m.size := Nat.max_eq_left hsize
    rwa [hrows] at hprepared
  · exact mean_of_hasExactMultiples hfinite h hsize hexact
  · exact noiseAmplitude_of_hasExactMultiples hfinite h hsize hexact

/-- A column of twos stays one. -/
theorem scaled_constant_column_twos :
    let m : Matrix Float := ⟨2, #[#v[2, 0], #v[2, 1], #v[2, 5]], .byColumn⟩
    0 < m.size ∧ m.column? 0 = some (List.replicate m.size 2) ∧
      m.scaled.column? 0 = some (List.replicate m.size 2) ∧
      noiseAmplitude (List.replicate m.size (2 : Float)) (Scalar.ofNat m.size) =
        1e-10 * Scalar.max (Scalar.abs 2) 1 := by
  intro m
  have hsize : m.size = 3 := rfl
  have hcolumn : m.column? 0 = some (List.replicate m.size 2) := rfl
  have hvalue : value (unpacked 2) = (2 : ℤ) := by
    have htwo : unpacked 2 = .finite .positive (2 ^ 52) (-51) (by decide) := rfl
    norm_num [htwo, value]
  obtain ⟨hscaled, _, _, hexact⟩ :=
    scaled_constant_column (m := m) (x := 2) (by decide) (by decide) (by decide +kernel) hcolumn
  obtain ⟨hsame, hamplitude⟩ := hexact (by decide)
    (hvalue ▸ hasExactMultiples_intCast (by decide))
  rw [hsame] at hscaled
  exact ⟨by decide, hcolumn, hscaled, hamplitude⟩

/-- The rounded mean of three tenths is the next larger double: a column of tenths is divided by the
distance of these two doubles, and the noise on it grows with it. -/
theorem tenths_blown_up :
    let m : Matrix Float := ⟨2, #[#v[0.1, 0], #v[0.1, 1], #v[0.1, 2]], .byRow⟩
    let y : Float := 0.1 / m.columnDeviation (List.replicate m.size 0.1)
    0 < m.size ∧ Scalar.isFinite (0.1 : Float) = true ∧
      m.column? 0 = some (List.replicate m.size 0.1) ∧
      m.scaled.column? 0 = some (List.replicate m.size y) ∧ m.scaled.column? 0 ≠ m.column? 0 ∧
      7e15 < y ∧ 7e5 < noiseAmplitude (List.replicate m.size y) (Scalar.ofNat m.size) := by
  intro m y
  have hcolumn : m.column? 0 = some (List.replicate m.size 0.1) := rfl
  have hdeviation : 0 < m.columnDeviation (List.replicate m.size 0.1) := by decide +kernel
  have hscaled : m.scaled.column? 0 = some (List.replicate m.size y) := by
    rw [column?_scaled (by decide) hcolumn, List.map_replicate, if_pos hdeviation]
  have hlarge : 7e15 < y := by decide +kernel
  have hsmall : ¬ (7e15 : Float) < 0.1 := by decide +kernel
  refine ⟨by decide, by decide +kernel, hcolumn, hscaled, ?_, hlarge, by decide +kernel⟩
  rw [hscaled, hcolumn]
  intro heq
  have hsame : y = 0.1 := (List.cons.inj (Option.some.inj heq)).1
  exact hsmall (hsame ▸ hlarge)

end Columns

end InfoFlow
