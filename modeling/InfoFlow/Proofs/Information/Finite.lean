import InfoFlow.Proofs.Information.Estimates
import InfoFlow.Proofs.Scalar.Magnitudes

namespace InfoFlow

open RealValued (toReal)
open Scalar (HasMagnitude isSize)

variable {α : Type} [Scalar α] [RealValued α] [LawfulReal α]

theorem Scalar.one_le_iff_toReal {x : α} (hx : isFinite x = true) : 1 ≤ x ↔ 1 ≤ toReal x := by
  rw [LawfulReal.le_iff_toReal hasMagnitude_one.isFinite hx, toReal_one]

omit [LawfulReal α] in
/-- A logarithm is no larger than the number or its reciprocal, whichever bound is larger. -/
theorem LogIsBounded.hasMagnitude (hlog : LogIsBounded α) {j k : ℕ} {x : α} (hx : HasMagnitude k x)
    (hleast : 1 ≤ 2 ^ j * toReal x) (hjk : j ≤ k) : HasMagnitude (k + 1) (Scalar.log x) := by
  have hpos : 0 < toReal x := pos_of_mul_pos_right (one_pos.trans_le hleast) (by positivity)
  have hinv : (toReal x)⁻¹ ≤ 2 ^ k := by
    have hle : (toReal x)⁻¹ ≤ 2 ^ j := (inv_le_iff_one_le_mul₀ hpos).mpr hleast
    exact hle.trans (pow_le_pow_right₀ one_le_two hjk)
  obtain ⟨hfinite, hle⟩ := hlog x hx.isFinite hpos
  refine ⟨hfinite, hle.trans ?_⟩
  have habs := (le_abs_self _).trans hx.abs_le
  rw [pow_succ]
  linarith

variable [LawfulMagnitudes α]

section Digamma

open Special

theorem hasMagnitude_one_div {x : α} (hx : Scalar.isFinite x = true) (hone : 1 ≤ toReal x) :
    HasMagnitude 0 (1 / x) :=
  Scalar.hasMagnitude_one.div (Nat.zero_le _) hx hone

theorem hasMagnitude_one_div_ofNat {n : ℕ} (hpos : 1 ≤ n) (hn : n ≤ 2 ^ 53) :
    HasMagnitude 0 (1 / Scalar.ofNat n : α) := by
  apply hasMagnitude_one_div (Scalar.isFinite_ofNat_word (by omega))
  rw [Scalar.toReal_ofNat hn]
  exact_mod_cast hpos

/-- The recurrence takes away at most 1 at each step, and its argument only grows. -/
theorem raiseDigamma_hasMagnitude {n j k : ℕ} {result z : α} (hj : j + n ≤ 1000) (hk : k + n ≤ 1000)
    (hresult : HasMagnitude j result) (hz : HasMagnitude k z) (hone : 1 ≤ toReal z) :
    HasMagnitude (j + n) (raiseDigamma n result z).1 ∧
      HasMagnitude (k + n) (raiseDigamma n result z).2 ∧ 1 ≤ toReal (raiseDigamma n result z).2 := by
  induction n generalizing j k result z with
  | zero => exact ⟨hresult, hz, hone⟩
  | succ n ih =>
    unfold raiseDigamma
    split
    case isTrue =>
      have hresult' : HasMagnitude (j + 1) (result - 1 / z) :=
        hresult.sub (hasMagnitude_one_div hz.isFinite hone) le_rfl (Nat.zero_le j) (by omega)
      have hz' : HasMagnitude (k + 1) (z + 1) :=
        hz.add Scalar.hasMagnitude_one le_rfl (Nat.zero_le k) (by omega)
      have hraised := ih (by omega) (by omega) hresult' hz'
        (hone.trans (LawfulMagnitudes.le_add_one (by omega) hz))
      rwa [Nat.add_right_comm, Nat.add_right_comm k] at hraised
    case isFalse => exact ⟨hresult.mono (by omega), hz.mono (by omega), hone⟩

variable (hlog : LogIsBounded α)

include hlog

/-- What is left to add after the recurrence is finite from 1 on. -/
theorem digammaPositive_hasMagnitude [LawfulOrder α] {x : α} (hx : HasMagnitude 65 x)
    (hone : 1 ≤ toReal x) : HasMagnitude 82 (digammaPositive x) := by
  have hlarge : ¬ x ≤ (1e-6 : α) := by
    have hle : 1 ≤ x := (Scalar.one_le_iff_toReal hx.isFinite).mpr hone
    exact Scalar.not_le_of_lt (Scalar.lt_of_lt_of_le LawfulMagnitudes.millionth_lt_one hle)
  obtain ⟨hresult, hz, hraised⟩ := raiseDigamma_hasMagnitude (n := 13) (by norm_num) (by norm_num)
    Scalar.hasMagnitude_zero hx hone
  unfold digammaPositive
  rw [if_neg hlarge]
  generalize raiseDigamma 13 0 x = raised at hresult hz hraised
  obtain ⟨result, z⟩ := raised
  dsimp only at hresult hz hraised ⊢
  split
  case isTrue =>
    have hlogarithm : HasMagnitude 79 (Scalar.log z) :=
      hlog.hasMagnitude (j := 0) hz (by simpa using hraised) (by norm_num)
    have hr : HasMagnitude 0 (1 / z) := hasMagnitude_one_div hz.isFinite hraised
    have hsquare : HasMagnitude 0 (1 / z * (1 / z)) := LawfulMagnitudes.mul (by norm_num) hr hr
    have hhalf : HasMagnitude 0 (0.5 * (1 / z)) :=
      LawfulMagnitudes.mul (by norm_num) LawfulMagnitudes.half hr
    have hfirst : HasMagnitude 81 (result + (Scalar.log z - 0.5 * (1 / z))) :=
      hresult.add (hlogarithm.sub hhalf le_rfl (by norm_num) (by norm_num)) (by norm_num) le_rfl
        (by norm_num)
    -- One more term of the series is one more difference of numbers that are small.
    have hseries {n k : ℕ} {rest : α} (hpos : 1 ≤ n) (hn : n ≤ 2 ^ 53) (hk : k ≤ 100)
        (hrest : HasMagnitude k rest) :
        HasMagnitude (k + 1) (1 / Scalar.ofNat n - 1 / z * (1 / z) * rest) :=
      (hasMagnitude_one_div_ofNat hpos hn).sub (LawfulMagnitudes.mul (by omega) hsquare hrest)
        (Nat.zero_le k) (by omega) (by omega)
    have hlast : HasMagnitude 0 (1 / Scalar.ofNat 132 : α) :=
      hasMagnitude_one_div_ofNat (by norm_num) (by norm_num)
    have h240 := hseries (n := 240) (by norm_num) (by norm_num) (by norm_num) hlast
    have h252 := hseries (n := 252) (by norm_num) (by norm_num) (by norm_num) h240
    have h120 := hseries (n := 120) (by norm_num) (by norm_num) (by norm_num) h252
    have h12 := hseries (n := 12) (by norm_num) (by norm_num) (by norm_num) h120
    exact hfirst.sub (LawfulMagnitudes.mul (by norm_num) hsquare h12) le_rfl (by norm_num) (by norm_num)
  case isFalse => exact hresult.mono (by norm_num)

theorem digamma_hasMagnitude [LawfulOrder α] {x : α} (hx : HasMagnitude 65 x) (hsize : isSize x = true) :
    HasMagnitude 82 (digamma x) := by
  obtain ⟨hfinite, _, hle⟩ := Scalar.isSize_iff.mp hsize
  obtain ⟨hnumber, _, hnegInfinity⟩ := Scalar.isFinite_iff.mp hfinite
  have hone : 1 ≤ toReal x := (Scalar.one_le_iff_toReal hfinite).mp hle
  have hzero : Scalar.isFinite (0 : α) = true := Scalar.hasMagnitude_zero.isFinite
  have hnonpos : ¬ x ≤ 0 := by
    rw [LawfulReal.le_iff_toReal hfinite hzero, Scalar.toReal_zero]
    linarith
  have hneg : ¬ x < 0 := by
    rw [Scalar.lt_iff_toReal hfinite hzero, Scalar.toReal_zero]
    linarith
  unfold digamma
  rw [if_neg (by simp [hnumber, hnegInfinity]), if_neg (by simp [hnonpos]), if_neg hneg]
  exact digammaPositive_hasMagnitude hlog hx hone

end Digamma

omit [LawfulMagnitudes α] in
theorem one_le_toReal_ofNat {n : ℕ} (hpos : 1 ≤ n) (hn : n ≤ 2 ^ 64) :
    1 ≤ toReal (Scalar.ofNat n : α) :=
  (Scalar.one_le_iff_toReal (Scalar.isFinite_ofNat_word hn)).mp (Scalar.ofNat_mono hpos)

/-- A mean is no larger than a sum. -/
theorem hasMagnitude_mean {k n : ℕ} {xs : List α} (hk : k ≤ 900) (hlength : xs.length ≤ n) (hpos : 1 ≤ n)
    (hn : n ≤ 2 ^ 64) (hxs : ∀ x ∈ xs, HasMagnitude k x) :
    HasMagnitude (k + 64) (Scalar.sum xs / Scalar.ofNat n) :=
  (LawfulMagnitudes.sum hk (hlength.trans hn) hxs).div (by omega) (Scalar.isFinite_ofNat_word hn)
    (one_le_toReal_ofNat hpos hn)

variable (hlog : LogIsBounded α)

include hlog

section Entropy

/-- The empirical probability of a symbol is not so near 0 that its logarithm is large. -/
theorem entropyTerm_hasMagnitude {count n : ℕ} (hcount : 1 ≤ count) (hcountLe : count ≤ 2 ^ 64)
    (hn : 1 ≤ n) (hnLe : n ≤ 2 ^ 64) :
    HasMagnitude 129 (entropyTerm (Scalar.ofNat count / Scalar.ofNat n : α)) := by
  have hx : HasMagnitude 64 (Scalar.ofNat count : α) := LawfulMagnitudes.ofNat hcountLe
  have hy : HasMagnitude 64 (Scalar.ofNat n : α) := LawfulMagnitudes.ofNat hnLe
  have hxone : 1 ≤ toReal (Scalar.ofNat count : α) := one_le_toReal_ofNat hcount hcountLe
  have hyone : 1 ≤ toReal (Scalar.ofNat n : α) := one_le_toReal_ofNat hn hnLe
  have hp := hx.div (by norm_num) hy.isFinite hyone
  have hleast := LawfulMagnitudes.one_le_div (by norm_num) (by norm_num) hx hy hxone hyone
  exact LawfulMagnitudes.mul (by norm_num) (LawfulMagnitudes.neg hp)
    (hlog.hasMagnitude hp hleast le_rfl)

variable {β γ : Type} [BEq β] [LawfulBEq β] [BEq γ] [LawfulBEq γ]

theorem entropy_hasMagnitude {xs : List β} (hlength : xs.length ≤ 2 ^ 64) :
    HasMagnitude 193 (entropy xs : α) := by
  unfold entropy
  split
  case isTrue => exact Scalar.hasMagnitude_zero.mono (Nat.zero_le _)
  case isFalse hne =>
    have hpos : 1 ≤ xs.length := List.length_pos_iff.mpr (by simpa using hne)
    apply LawfulMagnitudes.sum (by norm_num)
    · rw [List.length_map]
      unfold occurrences
      rw [List.length_map]
      exact (eraseDups_sublist xs).length_le.trans hlength
    · intro term hterm
      obtain ⟨count, hcount, rfl⟩ := List.mem_map.mp hterm
      obtain ⟨x, hx, rfl⟩ := List.mem_map.mp hcount
      have hmem : x ∈ xs := (eraseDups_sublist xs).subset hx
      exact entropyTerm_hasMagnitude hlog (List.count_pos_iff.mpr hmem)
        (List.count_le_length.trans hlength) hpos hlength

theorem plugIn_hasMagnitude {xs : List β} {ys : List γ} (hxs : xs.length ≤ 2 ^ 64)
    (hys : ys.length ≤ 2 ^ 64) : HasMagnitude 195 (plugIn xs ys : α) := by
  have hzip : (xs.zip ys).length ≤ 2 ^ 64 := List.length_zip.trans_le ((min_le_left _ _).trans hxs)
  have hsum : HasMagnitude 194 (entropy xs + entropy ys : α) :=
    (entropy_hasMagnitude hlog hxs).add (entropy_hasMagnitude hlog hys) le_rfl le_rfl (by norm_num)
  exact hsum.sub (entropy_hasMagnitude hlog hzip) le_rfl (by norm_num) (by norm_num)

end Entropy

section Neighbors

variable [LawfulOrder α] [LawfulSizes α]

theorem digamma_ofNat_hasMagnitude {n : ℕ} (hpos : 1 ≤ n) (hn : n ≤ 2 ^ 64) :
    HasMagnitude 82 (Special.digamma (Scalar.ofNat n : α)) := by
  have hsize : HasMagnitude 64 (Scalar.ofNat n : α) := LawfulMagnitudes.ofNat hn
  exact digamma_hasMagnitude hlog (hsize.mono (by norm_num)) (LawfulSizes.isSize_ofNat hpos hn)

theorem digamma_ofNat_add_one_hasMagnitude {n : ℕ} (hn : n ≤ 2 ^ 64) :
    HasMagnitude 82 (Special.digamma (Scalar.ofNat n + 1 : α)) := by
  have hsize : HasMagnitude 64 (Scalar.ofNat n : α) := LawfulMagnitudes.ofNat hn
  exact digamma_hasMagnitude hlog (hsize.add Scalar.hasMagnitude_one le_rfl (by norm_num) (by norm_num))
    (LawfulSizes.isSize_ofNat_add_one hn)

theorem kraskovTerm_hasMagnitude {joint x y : Matrix α} {k i : ℕ} (hx : i < x.size) (hy : i < y.size)
    (hxLe : x.size ≤ 2 ^ 64) (hyLe : y.size ≤ 2 ^ 64) :
    HasMagnitude 83 (kraskovTerm Special.digamma (.ofMatrix joint) (.ofMatrix x) (.ofMatrix y) k i) := by
  have hnx := PointSet.countWithin_ofMatrix_lt hx ((PointSet.ofMatrix joint).kthNeighborDistance i k)
  have hny := PointSet.countWithin_ofMatrix_lt hy ((PointSet.ofMatrix joint).kthNeighborDistance i k)
  exact (digamma_ofNat_add_one_hasMagnitude hlog (hnx.le.trans hxLe)).add
    (digamma_ofNat_add_one_hasMagnitude hlog (hny.le.trans hyLe)) le_rfl le_rfl (by norm_num)

theorem kraskov_hasMagnitude {x y : Matrix α} {k : ℕ} (hpos : 1 ≤ x.size) (hsize : x.size ≤ 2 ^ 64)
    (hk : 1 ≤ k) (hlimit : k ≤ 2 ^ 64) : HasMagnitude 148 (kraskov x y k) := by
  unfold kraskov kraskovWith
  cases hjoint : x.beside? y with
  | none => exact Scalar.hasMagnitude_zero.mono (Nat.zero_le _)
  | some joint =>
    obtain ⟨hx, hy⟩ := Matrix.IsPartOf.of_beside? hjoint
    have hxy : x.size = y.size := hx.size_eq.trans hy.size_eq.symm
    have hterms : ∀ term ∈ (List.range x.size).map (kraskovTerm Special.digamma (.ofMatrix joint)
        (.ofMatrix x) (.ofMatrix y) k), HasMagnitude 83 term := by
      intro term hterm
      obtain ⟨i, hi, rfl⟩ := List.mem_map.mp hterm
      have hi : i < x.size := List.mem_range.mp hi
      exact kraskovTerm_hasMagnitude hlog hi (hi.trans_eq hxy) hsize (hxy ▸ hsize)
    have hmean := hasMagnitude_mean (by norm_num) (by simp) hpos hsize hterms
    have hsizes : HasMagnitude 83 (Special.digamma (Scalar.ofNat x.size) +
        Special.digamma (Scalar.ofNat k) : α) :=
      (digamma_ofNat_hasMagnitude hlog hpos hsize).add (digamma_ofNat_hasMagnitude hlog hk hlimit)
        le_rfl le_rfl (by norm_num)
    exact hsizes.sub hmean (by norm_num) le_rfl (by norm_num)

variable {β : Type} [BEq β] [LawfulBEq β]

omit [LawfulBEq β] in
theorem rossTerm_hasMagnitude {c : Matrix α} {labels : List β} {k position i : Nat}
    (hlength : labels.length = c.size) (hsize : c.size ≤ 2 ^ 64) (hk : 1 ≤ k) (hlimit : k ≤ 2 ^ 64)
    (hposition : position < (sharedRows labels).length) (hi : i ∈ sharedRows labels) :
    HasMagnitude 84 (rossTerm c labels k position i) := by
  have hkept : (sharedRows labels).length ≤ labels.length := length_sharedRows_le
  obtain ⟨hfew, hneighborsLe, hmany, hgroupLe⟩ := groupedSampleOf_bounds c k hk hi
  have hlt := PointSet.countWithin_ofMatrix_lt (hposition.trans_eq (size_select_sharedRows hlength).symm)
    (groupedSampleOf c labels k i).radius
  rw [size_select_sharedRows hlength] at hlt
  have hneighbors := digamma_ofNat_hasMagnitude hlog hfew (hneighborsLe.trans hlimit)
  have hgroup := digamma_ofNat_hasMagnitude hlog hmany.le (hgroupLe.trans (hlength.trans_le hsize))
  have hcount : (PointSet.ofMatrix (c.select (sharedRows labels))).countWithin position
      (groupedSampleOf c labels k i).radius + 1 ≤ 2 ^ 64 := by omega
  have hcloser := digamma_ofNat_hasMagnitude hlog (Nat.le_add_left 1 _) hcount
  exact (hneighbors.sub hgroup le_rfl le_rfl (by norm_num)).sub hcloser le_rfl (by norm_num) (by norm_num)

theorem ross_hasMagnitude {c : Matrix α} {labels : List β} {k : Nat} (hlength : labels.length = c.size)
    (hsize : c.size ≤ 2 ^ 64) (hk : 1 ≤ k) (hlimit : k ≤ 2 ^ 64) :
    HasMagnitude 149 (ross c labels k) := by
  rw [ross_eq_rossTerms]
  split
  case isTrue => exact Scalar.hasMagnitude_zero.mono (Nat.zero_le _)
  case isFalse hne =>
    have hpos : 1 ≤ (sharedRows labels).length := List.length_pos_iff.mpr (by simpa using hne)
    have hkept : (sharedRows labels).length ≤ 2 ^ 64 :=
      length_sharedRows_le.trans (hlength.trans_le hsize)
    have hterms : ∀ term ∈ rossTerms c labels k, HasMagnitude 84 term := by
      intro term hterm
      obtain ⟨⟨i, position⟩, hi, rfl⟩ := List.mem_map.mp hterm
      exact rossTerm_hasMagnitude hlog hlength hsize hk hlimit (List.snd_lt_of_mem_zipIdx hi)
        (List.fst_mem_of_mem_zipIdx hi)
    have hmean := hasMagnitude_mean (by norm_num) (by simp [rossTerms]) hpos hkept hterms
    exact (digamma_ofNat_hasMagnitude hlog hpos hkept).add hmean (by norm_num) le_rfl (by norm_num)

end Neighbors

section Estimate

variable [LawfulOrder α] [LawfulSizes α] {σ : Type} [RandomWords σ] {secret output : Samples α} {k : Nat}

/-- Whatever the estimator and the noise, the estimate of aligned samples is finite. -/
theorem estimateNatsFrom_hasMagnitude (estimator : Estimator) (noise : σ)
    (halign : secret.size = output.size) (hpos : 1 ≤ secret.size) (hsize : secret.size ≤ 2 ^ 64)
    (hk : 1 ≤ k) (hlimit : k ≤ 2 ^ 64) :
    HasMagnitude 195 (estimateNatsFrom noise estimator k secret output) := by
  have hmixed : HasMagnitude 195 (estimateNatsFrom noise .mixed k secret output) := by
    obtain ⟨hrows, hlabels⟩ := size_mixedSides halign noise
    exact (ross_hasMagnitude hlog (hlabels.trans hrows.symm) (hrows.trans_le hsize) hk hlimit).mono
      (by norm_num)
  cases estimator with
  | discrete =>
    have hsecret : secret.ids.length ≤ 2 ^ 64 := (Samples.length_ids _).trans_le hsize
    have houtput : output.ids.length ≤ 2 ^ 64 := (Samples.length_ids _).trans_le (halign ▸ hsize)
    exact plugIn_hasMagnitude hlog hsecret houtput
  | continuous =>
    have hrows : ((prepare secret.values).run noise).1.size = secret.size :=
      prepare_size secret.values noise
    exact (kraskov_hasMagnitude hlog (hpos.trans_eq hrows.symm) (hrows.trans_le hsize) hk
      hlimit).mono (by norm_num)
  | mixed => exact hmixed
  | auto => exact hmixed

variable [LawfulQuotients α]

omit [LawfulReal α] [LawfulOrder α] [LawfulSizes α] hlog in
theorem Units.isFinite_ofNats (units : Units) {k : ℕ} {x : α} (hk : k < 1000) (hx : HasMagnitude k x) :
    Scalar.isFinite (units.ofNats x) = true := by
  cases units with
  | nats => exact hx.isFinite
  | bits =>
    have hbits : HasMagnitude (k + 1) (x / Scalar.ln2) :=
      LawfulMagnitudes.div hk hx LawfulQuotients.isFinite_ln2 LawfulMagnitudes.half_le_ln2
    exact hbits.isFinite

/-- Estimates are finite in all units. -/
theorem isFinite_estimate {p : EstimatorParams} (halign : secret.size = output.size)
    (hpos : 1 ≤ secret.size) (hsize : secret.size ≤ 2 ^ 64) (hneighbors : 1 ≤ p.neighbors.toNat) :
    Scalar.isFinite (estimate secret output p).1 = true := by
  unfold estimate
  split
  case isTrue => exact Scalar.hasMagnitude_zero.isFinite
  case isFalse =>
    have hnats := estimateNatsFrom_hasMagnitude hlog
      (p.estimator.resolve secret.isDiscrete output.isDiscrete) (Xoshiro.ofSeed p.seed) halign hpos hsize
      hneighbors p.neighbors.toNat_lt_size.le
    exact p.units.isFinite_ofNats (by norm_num)
      (hnats.max (Scalar.hasMagnitude_zero.mono (Nat.zero_le _)))

end Estimate

end InfoFlow
