import InfoFlow.Information.NearestNeighbor
import InfoFlow.Proofs.Information.Guarded
import InfoFlow.Proofs.Matrix
import InfoFlow.Proofs.Random.Always
import Mathlib.Algebra.BigOperators.Group.List.Basic

namespace InfoFlow

section Sums

/-- Numbers that stand for others, at least as long as those are in bounds: sums of them stand for sums. -/
structure IsAdditive {α M : Type} [Scalar α] [AddCommMonoid M] (R : M → α → Prop) (P : M → Prop) :
    Prop where
  zero : R 0 0
  add {a b : M} {x y : α} : R a x → R b y → P (a + b) → R (a + b) (x + y)
  mono {a b : M} : P (a + b) → P a

variable {α M : Type} [Scalar α] [AddCommMonoid M] {R : M → α → Prop} {P : M → Prop} {a : M}
  {as bs : List M} {xs ys : List α}

theorem IsAdditive.mono_right (h : IsAdditive R P) {a b : M} (hP : P (a + b)) : P b :=
  h.mono (add_comm a b ▸ hP)

theorem IsAdditive.foldl (h : IsAdditive R P) {x : α} (hx : R a x) (hxs : as.Forall₂ R xs)
    (hP : P (a + as.sum)) : R (a + as.sum) (xs.foldl (· + ·) x) := by
  induction hxs generalizing a x with
  | nil => rwa [List.sum_nil, add_zero]
  | cons hy hxs ih =>
    rw [List.sum_cons, ← add_assoc] at hP ⊢
    exact ih (h.add hx hy (h.mono hP)) hP

theorem IsAdditive.zipWith (h : IsAdditive R P) (hxs : as.Forall₂ R xs) (hys : bs.Forall₂ R ys)
    (hP : P (as.sum + bs.sum)) :
    (List.zipWith (· + ·) as bs).Forall₂ R (List.zipWith (· + ·) xs ys) := by
  induction hxs generalizing bs ys with
  | nil => exact .nil
  | cons hx hxs ih =>
    cases hys with
    | nil => exact .nil
    | cons hy hys =>
      rw [List.sum_cons, List.sum_cons, add_add_add_comm] at hP
      exact .cons (h.add hx hy (h.mono hP)) (ih hys (h.mono_right hP))

namespace Matrix

/-- All of what was added up is in the lanes or left over. -/
theorem fillLanes_of_isAdditive (h : IsAdditive R P) {lanes : List α} (hlanes : as.Forall₂ R lanes)
    (hlength : as.length = 8) (hxs : bs.Forall₂ R xs) (hP : P (as.sum + bs.sum)) :
    ∃ cs ds : List M, cs.length = 8 ∧ cs.sum + ds.sum = as.sum + bs.sum ∧
      cs.Forall₂ R (fillLanes lanes xs).1 ∧ ds.Forall₂ R (fillLanes lanes xs).2 := by
  fun_induction fillLanes lanes xs generalizing as bs with
  | case1 lanes x₁ x₂ x₃ x₄ x₅ x₆ x₇ x₈ rest ih =>
    have hadded : (bs.take 8).Forall₂ R [x₁, x₂, x₃, x₄, x₅, x₆, x₇, x₈] :=
      List.forall₂_take_append bs [x₁, x₂, x₃, x₄, x₅, x₆, x₇, x₈] rest hxs
    have hrest : (bs.drop 8).Forall₂ R rest :=
      List.forall₂_drop_append bs [x₁, x₂, x₃, x₄, x₅, x₆, x₇, x₈] rest hxs
    have hlength' : as.length = (bs.take 8).length := hlength.trans hadded.length_eq.symm
    have hsum := List.sum_add_sum_eq_sum_zipWith_of_length_eq _ _ hlength'
    have hmoved : (List.zipWith (· + ·) as (bs.take 8)).sum + (bs.drop 8).sum = as.sum + bs.sum := by
      rw [← hsum, add_assoc, List.sum_take_add_sum_drop]
    have hlanes' := h.zipWith hlanes hadded (by rw [hsum]; exact h.mono (hmoved ▸ hP))
    obtain ⟨cs, ds, hlength, hsum, hfilled⟩ := ih hlanes'
      (by rw [List.length_zipWith, ← hlength', hlength, min_self]) hrest (hmoved ▸ hP)
    exact ⟨cs, ds, hlength, hsum.trans hmoved, hfilled⟩
  | case2 => exact ⟨as, bs, hlength, rfl, hlanes, hxs⟩

/-- Sums of columns are sums, however the column is stored. -/
theorem columnSum_of_isAdditive (h : IsAdditive R P) (m : Matrix α) (hxs : as.Forall₂ R xs)
    (hP : P as.sum) : R as.sum (m.columnSum xs) := by
  unfold columnSum
  split
  case isFalse =>
    have hsum := h.foldl h.zero hxs (by rwa [zero_add])
    rwa [zero_add] at hsum
  case isTrue =>
    have hzeros : (List.replicate 8 (0 : M)).Forall₂ R (List.replicate 8 (0 : α)) := by
      simp [List.replicate, h.zero]
    have hnone : (List.replicate 8 (0 : M)).sum = 0 := by simp
    obtain ⟨cs, ds, hlength, hsum, hlanes, hrest⟩ := fillLanes_of_isAdditive h hzeros
      List.length_replicate hxs (by rwa [hnone, zero_add])
    have hpairs : (cs.take 4).sum + (cs.drop 4).sum =
        (List.zipWith (· + ·) (cs.take 4) (cs.drop 4)).sum :=
      List.sum_add_sum_eq_sum_zipWith_of_length_eq _ _ (by simp [hlength])
    have htotal : (List.zipWith (· + ·) (cs.take 4) (cs.drop 4) ++ ds).sum = as.sum := by
      rw [List.sum_append, ← hpairs, List.sum_take_add_sum_drop, hsum, hnone, zero_add]
    have hbound : P ((cs.take 4).sum + (cs.drop 4).sum) := by
      rw [hpairs]
      rw [← htotal, List.sum_append] at hP
      exact h.mono hP
    have hall := List.rel_append
      (h.zipWith (List.forall₂_take 4 hlanes) (List.forall₂_drop 4 hlanes) hbound) hrest
    have hfold := h.foldl h.zero hall (by rwa [zero_add, htotal])
    rwa [zero_add, htotal] at hfold

end Matrix

end Sums
variable {α σ : Type} [Scalar α] [RandomWords σ] (m : Matrix α)

namespace Guarded

/-- A row with a number for each column. -/
def rowOf (width : Nat) (numbers : List α) : Except EstimateFault (Vector α width) :=
  if h : numbers.toArray.size = width then .ok ⟨numbers.toArray, h⟩ else .error .outOfBounds

/-- The rows of a matrix that has `size` of them, from its columns. -/
def rowsOf (width size : Nat) (columns : List (List α)) :
    Except EstimateFault (List (Vector α width)) :=
  (List.range size).mapM fun i => do rowOf width (← columns.mapM fun column => entry column[i]?)

/-- Scales every column to unit variance and adds a little noise. -/
def prepare : ExceptT EstimateFault (Random σ) (Matrix α) := do
  let scaled := m.scaled
  let columns ← (liftM ((List.range scaled.width).mapM fun j => entry (scaled.column? j)) :
    ExceptT EstimateFault (Random σ) (List (List α)))
  let noisy ← ExceptT.lift (addNoiseToColumns (Scalar.ofNat (Nat.max scaled.size 1)) columns)
  let rows ← (liftM (rowsOf scaled.width scaled.size noisy) :
    ExceptT EstimateFault (Random σ) (List (Vector α scaled.width)))
  return ⟨scaled.width, rows.toArray, m.layout⟩

end Guarded

section Columns

theorem size_scaled : m.scaled.size = m.size := by
  unfold Matrix.scaled
  split
  · rfl
  · exact Array.size_map

theorem addNoise_length (amplitude : α) (column : List α) :
    (addNoise amplitude column : Random σ (List α)).Always fun noisy =>
      noisy.length = column.length := by
  have hall : (addNoise amplitude column : Random σ (List α)).Always fun noisy =>
      column.Forall₂ (fun _ _ => True) noisy := by
    apply Random.Always.mapM
    intro x hx noise
    trivial
  exact hall.mono fun noisy hnoisy => hnoisy.length_eq.symm

/-- Columns stay as many, and each as long, when noise is added. -/
theorem addNoiseToColumns_length (n : α) (columns : List (List α)) {size : Nat}
    (hcolumns : ∀ column ∈ columns, column.length = size) :
    (addNoiseToColumns n columns : Random σ (List (List α))).Always fun noisy =>
      noisy.length = columns.length ∧ ∀ column ∈ noisy, column.length = size := by
  have hall : (addNoiseToColumns n columns : Random σ (List (List α))).Always fun noisy =>
      columns.Forall₂ (fun column noisy => noisy.length = column.length) noisy := by
    apply Random.Always.mapM
    intro column hcolumn
    exact addNoise_length (noiseAmplitude column n) column
  refine hall.mono fun noisy hnoisy => ?_
  refine ⟨hnoisy.length_eq.symm, ?_⟩
  intro column hcolumn
  obtain ⟨original, horiginal, hlength⟩ := hnoisy.exists_of_mem_right hcolumn
  rw [hlength, hcolumns original horiginal]

theorem prepare_size : (prepare m : Random σ (Matrix α)).Always fun c => c.size = m.size := by
  refine Random.Always.bind_any fun noisy => Random.Always.of_pure ?_
  have hsize := size_scaled m
  unfold Matrix.ofLists
  simpa [Matrix.size] using hsize

variable {m} {j : Nat}

/-- The numbers of a column are divided by its deviation, if it has one. -/
theorem column?_scaled {column : List α} (hsize : m.size ≠ 0) (hcolumn : m.column? j = some column) :
    m.scaled.column? j = some (column.map (· /
      if 0 < m.columnDeviation column then m.columnDeviation column else 1)) := by
  unfold Matrix.column? at hcolumn
  split at hcolumn
  case isFalse => cases hcolumn
  case isTrue hj =>
    obtain rfl := Option.some.inj hcolumn
    unfold Matrix.scaled
    rw [if_neg hsize]
    unfold Matrix.column?
    rw [dif_pos hj]
    simp [Matrix.columnScales, Function.comp_def]

/-- Each column is given noise of its own amplitude, from where the stream is then. -/
theorem addNoiseToColumns_forall₂ (n : α) (columns : List (List α)) :
    (addNoiseToColumns n columns : Random σ (List (List α))).Always fun noisy =>
      columns.Forall₂ (fun column noisy => ∃ noise : σ,
        noisy = ((addNoise (noiseAmplitude column n) column).run noise).1) noisy := by
  apply Random.Always.mapM
  intro column _ noise
  exact ⟨noise, rfl⟩

theorem column?_ofLists {rows : List (List α)} {width : Nat} {layout : Layout} (hj : j < width) :
    Matrix.column? { Matrix.ofLists width rows with layout := layout } j =
      some (rows.map fun row => row.getD j 0) := by
  unfold Matrix.ofLists Matrix.column?
  rw [dif_pos hj]
  simp [Function.comp_def]

/-- A column of the prepared matrix is that of the scaled one with noise in proportion to it. -/
theorem prepare_column? {column : List α} (hcolumn : m.scaled.column? j = some column) :
    (prepare m : Random σ (Matrix α)).Always fun c => ∃ noise : σ, c.column? j =
      some ((addNoise (noiseAmplitude column (Scalar.ofNat (Nat.max m.size 1))) column).run noise).1 := by
  obtain ⟨hj, hlength⟩ : j < m.scaled.width ∧ column.length = m.scaled.size := by
    unfold Matrix.column? at hcolumn
    split at hcolumn
    case isFalse => cases hcolumn
    case isTrue hj =>
      rw [← Option.some.inj hcolumn]
      exact ⟨hj, by simp [Matrix.size]⟩
  have hsize := size_scaled m
  refine Random.Always.bind (addNoiseToColumns_forall₂ _ _) fun noisy hnoisy => ?_
  refine Random.Always.of_pure ?_
  obtain ⟨hmany, hnoise⟩ := List.forall₂_iff_get.mp hnoisy
  rw [List.length_map, List.length_range] at hmany
  have hj' : j < noisy.length := hmany ▸ hj
  obtain ⟨noise, hnoise⟩ := hnoise j (by simpa using hj) hj'
  simp only [List.get_eq_getElem, List.getElem_map, List.getElem_range, hcolumn, Option.getD_some,
    hsize] at hnoise
  refine ⟨noise, ?_⟩
  have hnoisyLength : noisy[j].length = m.scaled.size := by
    rw [hnoise, addNoise_length, hlength]
  rw [column?_ofLists hj, ← hnoise, List.map_map]
  congr 1
  refine List.ext_getElem (by simp [hnoisyLength]) fun i _ hi => ?_
  simp [List.getD_eq_getElem?_getD, hj', hi]
end Columns

namespace Guarded

variable {m}

omit [Scalar α] in
theorem columns_eq : (List.range m.width).mapM (fun j => entry (m.column? j)) =
    .ok ((List.range m.width).map fun j => (m.column? j).getD []) := by
  apply Except.mapM_eq_ok_map
  intro j hj
  unfold Matrix.column?
  rw [dif_pos (List.mem_range.mp hj)]
  rfl

/-- Columns of one length have a number for each of their rows, and each row one for every column. -/
theorem rowsOf_eq {width size : Nat} {columns : List (List α)} (hwidth : columns.length = width)
    (hsize : ∀ column ∈ columns, column.length = size) : rowsOf width size columns =
      .ok (((List.range size).map fun i =>
        (columns.map List.toArray).map fun column => column.getD i 0).map fun row =>
          Vector.ofFn fun j : Fin width => row.getD j 0) := by
  unfold rowsOf
  rw [List.map_map]
  apply Except.mapM_eq_ok_map
  intro i hi
  have hentries : columns.mapM (fun column => entry column[i]?) =
      .ok ((columns.map List.toArray).map fun column => column.getD i 0) := by
    rw [List.map_map]
    apply Except.mapM_eq_ok_map
    intro column hcolumn
    have hlt : i < column.length := hsize column hcolumn ▸ List.mem_range.mp hi
    rw [List.getElem?_eq_getElem hlt, Function.comp_apply, Array.getD_eq_getD_getElem?,
      List.getElem?_toArray, List.getElem?_eq_getElem hlt]
    rfl
  rw [hentries]
  dsimp only [bind, Except.bind, Function.comp_apply]
  generalize hrow : (columns.map List.toArray).map (fun column => column.getD i 0) = row
  have hlength : row.length = width := by
    rw [← hrow, List.length_map, List.length_map, hwidth]
  unfold rowOf
  rw [dif_pos (by simpa using hlength)]
  refine congrArg Except.ok (Vector.ext fun j hj => ?_)
  rw [Vector.getElem_ofFn, List.getD_eq_getElem?_getD, List.getElem?_eq_getElem (hlength ▸ hj)]
  rfl

/-- Preparing takes no default: it finds every column, and in each column a number for every row. -/
theorem prepare_eq : (prepare m : ExceptT EstimateFault (Random σ) (Matrix α)) =
    ExceptT.lift (InfoFlow.prepare m) := by
  have hcolumns : ∀ column ∈ (List.range m.scaled.width).map fun j => (m.scaled.column? j).getD [],
      column.length = m.scaled.size := by
    intro column hcolumn
    obtain ⟨j, hj, rfl⟩ := List.mem_map.mp hcolumn
    unfold Matrix.column?
    rw [dif_pos (List.mem_range.mp hj)]
    simp [Matrix.size]
  unfold prepare InfoFlow.prepare
  dsimp only
  rw [columns_eq]
  have hfound : (liftM (.ok ((List.range m.scaled.width).map fun j => (m.scaled.column? j).getD []) :
      Except EstimateFault _) : ExceptT EstimateFault (Random σ) _) =
        pure ((List.range m.scaled.width).map fun j => (m.scaled.column? j).getD []) := rfl
  refine ExceptT.ext ?_
  rw [hfound, pure_bind, ExceptT.run_bind_lift, ExceptT.run_lift, map_bind]
  refine Random.Always.bind_congr (addNoiseToColumns_length _ _ hcolumns) fun noisy hnoisy => ?_
  obtain ⟨hwidth, hsize⟩ := hnoisy
  rw [List.length_map, List.length_range] at hwidth
  rw [rowsOf_eq hwidth hsize]
  rfl

end Guarded

end InfoFlow
