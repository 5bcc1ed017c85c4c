import InfoFlow.Proofs.Information.Preparation
import InfoFlow.Proofs.Information.Processing
import InfoFlow.Proofs.Information.Symmetry
import InfoFlow.Proofs.Information.Walks

namespace InfoFlow

section Deviation

/-- The population standard deviation of some real numbers. -/
noncomputable def deviation (xs : List ℝ) : ℝ :=
  Real.sqrt ((xs.map fun x => (x - xs.sum / xs.length) ^ 2).sum / xs.length)

variable {xs : List ℝ} {x y : ℝ}

theorem Exact.isAdditive_real : IsAdditive (fun x z => z = Exact.real x) fun _ => True where
  zero := zero_eq
  add hx hy _ := by rw [hx, hy, real_add]
  mono _ := trivial

theorem Exact.sqrt_real (hx : 0 ≤ x) : Scalar.sqrt (real x) = real (Real.sqrt x) := by
  change (if x < 0 then nan else real (Real.sqrt x)) = real (Real.sqrt x)
  rw [if_neg (not_lt.mpr hx)]

theorem columnDeviation_real (m : Matrix Exact) (hne : xs ≠ []) :
    m.columnDeviation (xs.map .real) = .real (deviation xs) := by
  have hlength : (xs.length : ℝ) ≠ 0 := by
    exact_mod_cast (List.length_pos_iff.mpr hne).ne'
  have hsum : m.columnSum (xs.map .real) = .real xs.sum :=
    m.columnSum_of_isAdditive Exact.isAdditive_real (List.forall₂_map_right_iff.mpr
      (List.forall₂_same.mpr fun _ _ => rfl)) trivial
  have hsquares : (xs.map .real).map (fun z => (z - .real (xs.sum / xs.length)) *
      (z - .real (xs.sum / xs.length))) =
        (xs.map fun x => (x - xs.sum / xs.length) ^ 2).map Exact.real := by
    rw [List.map_map, List.map_map]
    refine List.map_congr_left fun x _ => ?_
    simp [sq]
  have hvariance : (0 : ℝ) ≤ (xs.map fun x => (x - xs.sum / xs.length) ^ 2).sum / xs.length := by
    refine div_nonneg (List.sum_nonneg fun square hsquare => ?_) (Nat.cast_nonneg _)
    obtain ⟨x, _, rfl⟩ := List.mem_map.mp hsquare
    exact sq_nonneg _
  unfold Matrix.columnDeviation
  dsimp only
  rw [hsum, List.length_map, Exact.ofNat_eq, Exact.real_div hlength, hsquares, Exact.sum_map_real,
    Exact.real_div hlength, Exact.sqrt_real hvariance, deviation]

theorem deviation_map_mul {factor : ℝ} (hfactor : 0 ≤ factor) :
    deviation (xs.map (· * factor)) = deviation xs * factor := by
  have hmean : (xs.map (· * factor)).sum / xs.length = xs.sum / xs.length * factor := by
    rw [List.sum_map_mul_right, List.map_id', div_mul_eq_mul_div]
  have hsquares : ((xs.map (· * factor)).map fun x => (x - xs.sum / xs.length * factor) ^ 2).sum =
      (xs.map fun x => (x - xs.sum / xs.length) ^ 2).sum * factor ^ 2 := by
    rw [List.map_map, ← List.sum_map_mul_right]
    congr 1
    refine List.map_congr_left fun x _ => ?_
    simp only [Function.comp_apply]
    ring
  unfold deviation
  rw [List.length_map, hmean, hsquares, ← div_mul_eq_mul_div, Real.sqrt_mul' _ (sq_nonneg factor),
    Real.sqrt_sq hfactor]

/-- Numbers that are not all the same deviate from their mean. -/
theorem deviation_pos (hx : x ∈ xs) (hy : y ∈ xs) (hxy : x ≠ y) : 0 < deviation xs := by
  have hlength : (0 : ℝ) < xs.length := by
    exact_mod_cast List.length_pos_of_mem hx
  refine Real.sqrt_pos.mpr (div_pos ?_ hlength)
  -- One of two different numbers is not the mean, and its square is one of those that are added.
  have hoff : ∃ z ∈ xs, z - xs.sum / xs.length ≠ 0 := by
    by_contra hall
    push Not at hall
    exact hxy ((sub_eq_zero.mp (hall x hx)).trans (sub_eq_zero.mp (hall y hy)).symm)
  obtain ⟨z, hz, hne⟩ := hoff
  have hnonneg : ∀ square ∈ xs.map fun x => (x - xs.sum / xs.length) ^ 2, 0 ≤ square := by
    intro square hsquare
    obtain ⟨w, _, rfl⟩ := List.mem_map.mp hsquare
    exact sq_nonneg _
  exact (sq_pos_of_ne_zero hne).trans_le
    (List.single_le_sum hnonneg _ (List.mem_map_of_mem hz))

end Deviation

namespace Matrix

/-- The columns of a matrix, each times a factor of its own. -/
noncomputable abbrev rescaled (m : Matrix Exact) (factors : Fin m.width → ℝ) : Matrix Exact :=
  { m with rows := m.rows.map fun row => Vector.ofFn fun j => row.get j * .real (factors j) }

/-- All numbers are finite, and no column is constant. -/
structure Varies (m : Matrix Exact) : Prop where
  isFinite : m.IsFinite
  varies : ∀ j : Fin m.width, ∃ row ∈ m.rows, ∃ other ∈ m.rows, row.get j ≠ other.get j

variable {m : Matrix Exact} {factors : Fin m.width → ℝ}

theorem size_rescaled (m : Matrix Exact) (factors : Fin m.width → ℝ) :
    (m.rescaled factors).size = m.size := Array.size_map

theorem IsFinite.exists_real (h : m.IsFinite) {row : Vector Exact m.width} (hrow : row ∈ m.rows)
    (j : Fin m.width) : ∃ x, row.get j = .real x := by
  refine Exact.isFinite_iff.mp (h row.toList (List.mem_map_of_mem (by simpa using hrow)) _ ?_)
  simp [Vector.get_eq_getElem]

theorem Varies.exists_column (h : m.Varies) (j : Fin m.width) : ∃ xs : List ℝ,
    (m.rows.toList.map fun row => row.get j) = xs.map .real ∧ 0 < deviation xs := by
  refine ⟨m.rows.toList.map fun row => (row.get j).toReal, ?_, ?_⟩
  · rw [List.map_map]
    refine List.map_congr_left fun row hrow => ?_
    obtain ⟨x, hx⟩ := h.isFinite.exists_real (Array.mem_toList_iff.mp hrow) j
    rw [Function.comp_apply, hx]
    rfl
  · obtain ⟨row, hrow, other, hother, hne⟩ := h.varies j
    obtain ⟨x, hx⟩ := h.isFinite.exists_real hrow j
    obtain ⟨y, hy⟩ := h.isFinite.exists_real hother j
    refine deviation_pos (x := x) (y := y) ?_ ?_ ?_
    · exact List.mem_map.mpr ⟨row, Array.mem_toList_iff.mpr hrow, by rw [hx]; rfl⟩
    · exact List.mem_map.mpr ⟨other, Array.mem_toList_iff.mpr hother, by rw [hy]; rfl⟩
    · rintro rfl
      exact hne (hx.trans hy.symm)

/-- A column with a deviation is divided by it. -/
theorem get_columnScales (m : Matrix Exact) (j : Fin m.width) {xs : List ℝ}
    (hxs : (m.rows.toList.map fun row => row.get j) = xs.map .real) (hpos : 0 < deviation xs) :
    m.columnScales.get j = .real (deviation xs) := by
  have hne : xs ≠ [] := by
    rintro rfl
    simp [deviation] at hpos
  have hdeviation := columnDeviation_real m hne
  unfold columnScales
  rw [← hxs] at hdeviation
  simp only [Vector.get_eq_getElem, Fin.getElem_fin, Vector.getElem_ofFn] at hdeviation ⊢
  rw [hdeviation, if_pos (Exact.zero_lt_iff.mpr (.inr ⟨_, rfl, hpos⟩))]

theorem columnScales_rescaled (h : m.Varies) (hfactors : ∀ j, 0 < factors j) (j : Fin m.width) :
    ∃ d : ℝ, 0 < d ∧ m.columnScales.get j = .real d ∧
      (m.rescaled factors).columnScales.get j = .real (d * factors j) := by
  obtain ⟨xs, hxs, hpos⟩ := h.exists_column j
  have hrescaled : ((m.rescaled factors).rows.toList.map fun row => row.get j) =
      (xs.map (· * factors j)).map .real := by
    have hcolumn : ((m.rescaled factors).rows.toList.map fun row => row.get j) =
        (m.rows.toList.map fun row => row.get j).map (· * .real (factors j)) := by
      simp [rescaled, Function.comp_def, Vector.get_eq_getElem]
    rw [hcolumn, hxs, List.map_map, List.map_map]
    rfl
  have hdeviation : deviation (xs.map (· * factors j)) = deviation xs * factors j :=
    deviation_map_mul (hfactors j).le
  refine ⟨deviation xs, hpos, m.get_columnScales j hxs hpos, ?_⟩
  rw [← hdeviation]
  exact get_columnScales (m.rescaled factors) j hrescaled
    (hdeviation ▸ mul_pos hpos (hfactors j))

/-- Division by the deviation takes back the factor of a column. -/
theorem scaled_rescaled (h : m.Varies) (hfactors : ∀ j, 0 < factors j) :
    (m.rescaled factors).scaled = m.scaled := by
  have hrows : (m.rescaled factors).rows.map (fun row =>
      Vector.zipWith (· / ·) row (m.rescaled factors).columnScales) =
        m.rows.map fun row => Vector.zipWith (· / ·) row m.columnScales := by
    rw [Array.map_map]
    refine Array.map_congr_left fun row hrow => Vector.ext fun j hj => ?_
    obtain ⟨x, hx⟩ := h.isFinite.exists_real hrow ⟨j, hj⟩
    obtain ⟨d, hd, hscale, hscale'⟩ := columnScales_rescaled h hfactors ⟨j, hj⟩
    have hfactor := hfactors ⟨j, hj⟩
    rw [Vector.get_eq_getElem] at hx hscale hscale'
    simp only [Vector.get_eq_getElem, Function.comp_apply, Vector.getElem_zipWith,
      Vector.getElem_ofFn] at hx hscale hscale' ⊢
    rw [hx, hscale, hscale', Exact.real_mul, Exact.real_div (mul_pos hd hfactor).ne',
      Exact.real_div hd.ne', mul_div_mul_right _ _ hfactor.ne']
  unfold scaled
  rw [size_rescaled]
  split
  case isTrue hempty =>
    have hnone : m.rows = #[] := Array.eq_empty_of_size_eq_zero hempty
    refine congrArg (Matrix.mk m.width · m.layout) ?_
    rw [hnone, Array.map_empty]
  case isFalse => exact congrArg (Matrix.mk m.width · m.layout) hrows

theorem IsFinite.isConstant_iff (h : m.IsFinite) :
    m.isConstant = true ↔ ∀ row ∈ m.rows, ∀ other ∈ m.rows, row = other := by
  have hnumber {row : Vector Exact m.width} (hrow : row ∈ m.rows) : ∀ x ∈ row.toList, x ≠ .nan := by
    intro x hx
    have hfinite := h row.toList (List.mem_map_of_mem (Array.mem_toList_iff.mpr hrow)) x hx
    obtain ⟨r, rfl⟩ := Exact.isFinite_iff.mp hfinite
    exact Exact.noConfusion
  rw [Matrix.isConstant_iff]
  unfold toLists
  simp only [List.forall_mem_map, Array.mem_toList_iff, Vector.toList_inj]
  exact ⟨fun hall row hrow other hother => (hall row hrow other hother).1,
    fun hall row hrow other hother => ⟨hall row hrow other hother, hnumber hrow⟩⟩

theorem isFinite_rescaled (h : m.IsFinite) : (m.rescaled factors).IsFinite := by
  unfold IsFinite toLists
  simp only [Array.toList_map, List.map_map, List.forall_mem_map, Array.mem_toList_iff,
    Function.comp_apply]
  intro row hrow x hx
  obtain ⟨j, hj, rfl⟩ := List.mem_iff_getElem.mp hx
  rw [Vector.length_toList] at hj
  obtain ⟨y, hy⟩ := h.exists_real hrow ⟨j, hj⟩
  rw [Vector.get_eq_getElem] at hy
  simp only [Vector.getElem_toList, Vector.getElem_ofFn, Vector.get_eq_getElem, hy, Exact.real_mul]
  exact Exact.isFinite_iff.mpr ⟨_, rfl⟩

theorem isConstant_rescaled (h : m.Varies) (hfactors : ∀ j, 0 < factors j) :
    (m.rescaled factors).isConstant = m.isConstant := by
  rw [Bool.eq_iff_iff, (isFinite_rescaled h.isFinite).isConstant_iff, h.isFinite.isConstant_iff]
  constructor
  · intro hall row hrow other hother
    have hsame := hall _ (Array.mem_map_of_mem hrow) _ (Array.mem_map_of_mem hother)
    refine Vector.ext fun j hj => ?_
    obtain ⟨x, hx⟩ := h.isFinite.exists_real hrow ⟨j, hj⟩
    obtain ⟨y, hy⟩ := h.isFinite.exists_real hother ⟨j, hj⟩
    have hentry := congrArg (Vector.get · ⟨j, hj⟩) hsame
    simp only [Vector.get_eq_getElem] at hx hy hentry
    simp only [Vector.getElem_ofFn, hx, hy, Exact.real_mul, Exact.real.injEq] at hentry
    rw [hx, hy, mul_right_cancel₀ (hfactors ⟨j, hj⟩).ne' hentry]
  · intro hall
    simp only [Array.forall_mem_map]
    intro row hrow other hother
    rw [hall row hrow other hother]

end Matrix

variable {σ : Type} [RandomWords σ]

/-- Prepared samples do not show the unit of any column, whatever noise is added to them. -/
theorem prepare_rescaled {m : Matrix Exact} {factors : Fin m.width → ℝ} (h : m.Varies)
    (hfactors : ∀ j, 0 < factors j) :
    (prepare (m.rescaled factors) : Random σ (Matrix Exact)) = prepare m := by
  unfold prepare
  rw [Matrix.scaled_rescaled h hfactors]

/-- Estimates see no more of their samples than their sizes, whether they are constant and what a
resolved estimator makes of them. -/
theorem mutualInformation_congr {secret output secret' output' : Samples Exact} {p : EstimatorParams}
    (hsecret : secret'.size = secret.size) (houtput : output'.size = output.size)
    (hconstant : secret'.values.isConstant = secret.values.isConstant)
    (hconstant' : output'.values.isConstant = output.values.isConstant)
    (hresolve : p.estimator.resolve secret'.isDiscrete output'.isDiscrete =
      p.estimator.resolve secret.isDiscrete output.isDiscrete)
    (hnats : ∀ noise : Xoshiro, estimateNatsFrom noise
      (p.estimator.resolve secret.isDiscrete output.isDiscrete) p.neighbors.toNat secret' output' =
        estimateNatsFrom noise (p.estimator.resolve secret.isDiscrete output.isDiscrete)
          p.neighbors.toNat secret output) :
    mutualInformation secret' output' p = mutualInformation secret output p := by
  unfold mutualInformation estimate
  dsimp only
  rw [hsecret, houtput, hconstant, hconstant', hresolve, hnats]

section Estimates

variable {secret output : Samples Exact} {p : EstimatorParams} {f : Fin secret.values.width → ℝ}
  {g : Fin output.values.width → ℝ}

/-- The units of both sides cancel in the estimate for continuous sides. -/
theorem mutualInformation_rescaled_of_continuous (hsecret : secret.values.Varies)
    (houtput : output.values.Varies) (hf : ∀ j, 0 < f j) (hg : ∀ j, 0 < g j) {kind kind' : Bool}
    (hresolve : p.estimator.resolve secret.isDiscrete output.isDiscrete = .continuous)
    (hresolve' : p.estimator.resolve kind kind' = .continuous) :
    mutualInformation ⟨secret.values.rescaled f, kind⟩ ⟨output.values.rescaled g, kind'⟩ p =
      mutualInformation secret output p := by
  refine mutualInformation_congr (Matrix.size_rescaled _ f) (Matrix.size_rescaled _ g)
    (Matrix.isConstant_rescaled hsecret hf) (Matrix.isConstant_rescaled houtput hg)
    (hresolve'.trans hresolve.symm) fun noise => ?_
  rw [hresolve]
  unfold estimateNatsFrom
  dsimp only
  rw [prepare_rescaled hsecret hf, prepare_rescaled houtput hg]

/-- The units of a secret that the output labels cancel. -/
theorem mutualInformation_rescaled_secret (hsecret : secret.values.Varies) (hf : ∀ j, 0 < f j)
    (hresolve : p.estimator.resolve secret.isDiscrete output.isDiscrete = .mixed)
    (hkind : secret.isDiscrete = false) (hkind' : output.isDiscrete = true) :
    mutualInformation ⟨secret.values.rescaled f, false⟩ output p =
      mutualInformation secret output p := by
  refine mutualInformation_congr (Matrix.size_rescaled _ f) rfl
    (Matrix.isConstant_rescaled hsecret hf) rfl (by rw [hkind]) fun noise => ?_
  rw [hresolve]
  unfold estimateNatsFrom mixedSides
  simp only [hkind, hkind', Bool.not_false, Bool.and_self, if_true, prepare_rescaled hsecret hf]

/-- The units of an output that the secret labels cancel. -/
theorem mutualInformation_rescaled_output (houtput : output.values.Varies) (hg : ∀ j, 0 < g j)
    {kind : Bool} (hresolve : p.estimator.resolve secret.isDiscrete output.isDiscrete = .mixed)
    (hresolve' : p.estimator.resolve secret.isDiscrete kind = .mixed)
    (hkind : secret.isDiscrete = true ∨ output.isDiscrete = false ∧ kind = false) :
    mutualInformation secret ⟨output.values.rescaled g, kind⟩ p =
      mutualInformation secret output p := by
  have hlabels : (output.isDiscrete && !secret.isDiscrete) = false := by
    rcases hkind with h | ⟨h, _⟩ <;> simp [h]
  have hlabels' : (kind && !secret.isDiscrete) = false := by
    rcases hkind with h | ⟨_, h⟩ <;> simp [h]
  refine mutualInformation_congr rfl (Matrix.size_rescaled _ g) rfl
    (Matrix.isConstant_rescaled houtput hg) (hresolve'.trans hresolve.symm) fun noise => ?_
  rw [hresolve]
  unfold estimateNatsFrom mixedSides
  simp only [hlabels, hlabels', Bool.false_eq_true, if_false, prepare_rescaled houtput hg]

/-- Samples may be given in any units. Whether the numbers are all whole may depend on the unit, so the
kinds of rescaled samples need only be such that the same side is labelled. -/
theorem units_cancel (hsecret : secret.values.Varies) (houtput : output.values.Varies)
    (hf : ∀ j, 0 < f j) (hg : ∀ j, 0 < g j) :
    (∀ (σ : Type) [RandomWords σ],
      (prepare (secret.values.rescaled f) : Random σ (Matrix Exact)) = prepare secret.values ∧
      (prepare (output.values.rescaled g) : Random σ (Matrix Exact)) = prepare output.values) ∧
    (p.estimator.resolve secret.isDiscrete output.isDiscrete = .continuous →
      ∀ kind kind', p.estimator.resolve kind kind' = .continuous →
        mutualInformation ⟨secret.values.rescaled f, kind⟩ ⟨output.values.rescaled g, kind'⟩ p =
          mutualInformation secret output p) ∧
    (p.estimator.resolve secret.isDiscrete output.isDiscrete = .mixed →
      (secret.isDiscrete = false ∧ output.isDiscrete = true →
        mutualInformation ⟨secret.values.rescaled f, false⟩ output p =
          mutualInformation secret output p) ∧
      ∀ kind, p.estimator.resolve secret.isDiscrete kind = .mixed →
        (secret.isDiscrete = true ∨ output.isDiscrete = false ∧ kind = false) →
        mutualInformation secret ⟨output.values.rescaled g, kind⟩ p =
          mutualInformation secret output p) := by
  refine ⟨fun σ _ => ⟨prepare_rescaled hsecret hf, prepare_rescaled houtput hg⟩, ?_, ?_⟩
  · intro hresolve kind kind' hresolve'
    exact mutualInformation_rescaled_of_continuous hsecret houtput hf hg hresolve hresolve'
  · intro hresolve
    refine ⟨?_, ?_⟩
    · rintro ⟨hkind, hkind'⟩
      exact mutualInformation_rescaled_secret hsecret hf hresolve hkind hkind'
    · intro kind hresolve' hkind
      exact mutualInformation_rescaled_output houtput hg hresolve hresolve' hkind

theorem Matrix.varies_ofVector {xs : List ℝ} {x y : ℝ} (hx : x ∈ xs) (hy : y ∈ xs) (h : x ≠ y) :
    (Matrix.ofVector (xs.map Exact.real)).Varies := by
  have hrow {z : ℝ} (hz : z ∈ xs) : #v[Exact.real z] ∈ (Matrix.ofVector (xs.map Exact.real)).rows := by
    exact List.mem_toArray.mpr (List.mem_map_of_mem (List.mem_map_of_mem hz))
  refine ⟨?_, fun j => ⟨_, hrow hx, _, hrow hy, ?_⟩⟩
  · simp [Matrix.IsFinite, Matrix.toLists, Matrix.ofVector, Exact.isFinite_iff]
  · obtain ⟨j, hj⟩ := j
    obtain rfl : j = 0 := Nat.lt_one_iff.mp hj
    exact fun heq => h (Exact.real.inj heq)

/-- Four throws of a coin and four lengths, which are given in meters and in millimeters. -/
theorem units_cancel_lengths :
    let lengths : Samples Exact := ⟨.ofVector [.real 0.5, .real 1.5, .real 0.25, .real 2], false⟩
    let p : EstimatorParams := { neighbors := 1, minSamples := 1 }
    fourThrows.values.Varies ∧ lengths.values.Varies ∧
      (groupedSamples lengths.values fourThrows.ids 1).length = 4 ∧
      (∃ score, mutualInformation fourThrows lengths p = .ok score) ∧
      mutualInformation fourThrows ⟨lengths.values.rescaled fun _ => 1000, false⟩ p =
        mutualInformation fourThrows lengths p := by
  intro lengths p
  have hcoin : fourThrows.values.Varies :=
    show (Matrix.ofVector ([0, 1, 0, 1].map Exact.real)).Varies from
      Matrix.varies_ofVector (x := 0) (y := 1) (by simp) (by simp) zero_ne_one
  have hlengths : lengths.values.Varies :=
    show (Matrix.ofVector ([0.5, 1.5, 0.25, 2].map Exact.real)).Varies from
      Matrix.varies_ofVector (x := 0.5) (y := 1.5) (by simp) (by simp) (by norm_num)
  obtain ⟨_, _, hmixed⟩ := units_cancel (p := p) hcoin hlengths (f := fun _ => 1)
    (g := fun _ => 1000) (fun _ => one_pos) (fun _ => by norm_num)
  exact ⟨hcoin, hlengths, length_groupedSamples_fourThrows _, ⟨_, rfl⟩,
    (hmixed rfl).2 false rfl (.inl rfl)⟩

end Estimates

end InfoFlow
