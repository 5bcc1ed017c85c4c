import InfoFlow.Information.NearestNeighbor
import InfoFlow.Proofs.Information.Distances

namespace InfoFlow

/-- What a sample adds to the mean, by the distances of some samples on each side. In the joint space, the
distance of two samples is the larger one. -/
noncomputable def kraskovFormulaTerm (ψ : Exact → Exact) (d e : ℕ → ℕ → ℝ) (s : Finset ℕ) (k i : ℕ) :
    Exact :=
  let eps := kthNearest (fun i j => max (d i j) (e i j)) s k i
  ψ (.real (closer d s eps i + 1)) + ψ (.real (closer e s eps i + 1))

/-- The estimate for two continuous sides, by the distances of the samples on each side. -/
noncomputable def kraskovFormula (ψ : Exact → Exact) (d e : ℕ → ℕ → ℝ) (s : Finset ℕ) (k : ℕ) : Exact :=
  ψ (.real s.card) + ψ (.real k) -
    Exact.total (s.val.map (kraskovFormulaTerm ψ d e s k)) / .real s.card

section Formula

variable {d d' e e' : ℕ → ℕ → ℝ} {s s' : Finset ℕ} {f : ℕ → ℕ} (ψ : Exact → Exact)

theorem kraskovFormula_comm (d e : ℕ → ℕ → ℝ) (s : Finset ℕ) (k : ℕ) :
    kraskovFormula ψ e d s k = kraskovFormula ψ d e s k := by
  have hjoint : (fun i j => max (e i j) (d i j)) = fun i j => max (d i j) (e i j) := by
    funext i j
    exact max_comm _ _
  have hterm : kraskovFormulaTerm ψ e d s k = kraskovFormulaTerm ψ d e s k := by
    funext i
    unfold kraskovFormulaTerm
    rw [hjoint]
    exact @Std.Commutative.comm Exact (· + ·) _ (ψ _) (ψ _)
  unfold kraskovFormula
  rw [hterm]

theorem kraskovFormula_eq (hd : IsRenumbered f s s' d d') (he : IsRenumbered f s s' e e') (k : ℕ) :
    kraskovFormula ψ d' e' s' k = kraskovFormula ψ d e s k := by
  have hterm (i : ℕ) (hi : i ∈ s') :
      kraskovFormulaTerm ψ d' e' s' k i = kraskovFormulaTerm ψ d e s k (f i) := by
    unfold kraskovFormulaTerm
    dsimp only
    rw [(hd.joint he).kthNearest_eq hi, hd.closer_eq hi, he.closer_eq hi]
  unfold kraskovFormula
  rw [hd.card_eq, hd.total_eq hterm]

end Formula

section Estimate

variable {x y : Matrix Exact} {k : ℕ} (ψ : Exact → Exact) (hx : x.IsFinite) (hy : y.IsFinite)
  (hsize : x.size = y.size) (hk : 1 ≤ k)

include hx hy hsize hk

theorem kraskovWith_eq :
    kraskovWith ψ x y k = kraskovFormula ψ x.gap y.gap (Finset.range x.size) k := by
  obtain ⟨joint, hjoint⟩ : ∃ joint, x.beside? y = some joint := ⟨_, if_pos hsize⟩
  have hjointSize := (Matrix.IsPartOf.of_beside? hjoint).1.size_eq
  have hgap : joint.gap = fun i j => max (x.gap i j) (y.gap i j) := by
    funext i j
    exact Matrix.gap_of_beside? hjoint i j
  have hterm (i : ℕ) (hi : i ∈ List.range x.size) :
      kraskovTerm ψ (.ofMatrix joint) (.ofMatrix x) (.ofMatrix y) k i =
        kraskovFormulaTerm ψ x.gap y.gap (Finset.range x.size) k i := by
    have hi := List.mem_range.mp hi
    have hfinite := Matrix.isFinite_of_beside? hjoint hx hy
    unfold kraskovTerm kraskovFormulaTerm
    dsimp only
    rw [PointSet.kthNeighborDistance_eq_kthNearest hfinite (hjointSize ▸ hi) hk,
      PointSet.countWithin_eq_closer hx hi, PointSet.countWithin_eq_closer hy (hsize ▸ hi), hgap,
      ← hjointSize, ← hsize]
    simp only [Exact.ofNat_eq, Exact.one_eq, Exact.real_add]
  unfold kraskovWith kraskovFormula
  rw [hjoint]
  dsimp only
  rw [List.map_congr_left hterm, Exact.sum_eq_total, Finset.card_range]
  rfl

theorem kraskovWith_select {positions : List ℕ} (hperm : positions.Perm (List.range x.size)) :
    kraskovWith ψ (x.select positions) (y.select positions) k = kraskovWith ψ x y k := by
  have hperm' : positions.Perm (List.range y.size) := hsize ▸ hperm
  have hys := Matrix.isRenumbered_of_perm hperm'
  rw [← hsize] at hys
  have hsize' : (x.select positions).size = (y.select positions).size := by
    rw [Matrix.size_select_of_perm hperm, Matrix.size_select_of_perm hperm', hsize]
  rw [kraskovWith_eq ψ (Matrix.isFinite_select hx _) (Matrix.isFinite_select hy _) hsize' hk,
    kraskovWith_eq ψ hx hy hsize hk, Matrix.size_select_of_perm hperm,
    kraskovFormula_eq ψ (Matrix.isRenumbered_of_perm hperm) hys]

theorem kraskovWith_permuteColumns (σ : Equiv.Perm (Fin x.width)) (τ : Equiv.Perm (Fin y.width)) :
    kraskovWith ψ (x.permuteColumns σ) (y.permuteColumns τ) k = kraskovWith ψ x y k := by
  have hsize' : (x.permuteColumns σ).size = (y.permuteColumns τ).size := by
    rwa [Matrix.size_permuteColumns, Matrix.size_permuteColumns]
  rw [kraskovWith_eq ψ (Matrix.isFinite_permuteColumns σ hx) (Matrix.isFinite_permuteColumns τ hy) hsize' hk,
    kraskovWith_eq ψ hx hy hsize hk, Matrix.size_permuteColumns, Matrix.gap_permuteColumns,
    Matrix.gap_permuteColumns]

/-- In exact arithmetic, the estimate of two sides of finite numbers is its formula, whatever the digamma
function. It stays the same with the sides exchanged, with the samples of both in another order, and with
the columns of a side in another order. -/
theorem kraskovWith_formula :
    kraskovWith ψ x y k = kraskovFormula ψ x.gap y.gap (Finset.range x.size) k ∧
      kraskovWith ψ y x k = kraskovWith ψ x y k ∧
      (∀ positions, positions.Perm (List.range x.size) →
        kraskovWith ψ (x.select positions) (y.select positions) k = kraskovWith ψ x y k) ∧
      ∀ σ τ, kraskovWith ψ (x.permuteColumns σ) (y.permuteColumns τ) k = kraskovWith ψ x y k := by
  refine ⟨kraskovWith_eq ψ hx hy hsize hk, ?_, fun positions hperm => ?_, fun σ τ => ?_⟩
  · rw [kraskovWith_eq ψ hy hx hsize.symm hk, kraskovWith_eq ψ hx hy hsize hk, ← hsize,
      kraskovFormula_comm]
  · exact kraskovWith_select ψ hx hy hsize hk hperm
  · exact kraskovWith_permuteColumns ψ hx hy hsize hk σ τ

end Estimate

/-- Of two samples that are as far apart on both sides, neither is strictly closer to the other. -/
theorem kraskovWith_twoSamples :
    (Matrix.ofVector [Exact.real 0, .real 1]).IsFinite ∧
      (Matrix.ofVector [Exact.real 5, .real 4]).IsFinite ∧
      kraskovWith id (.ofVector [Exact.real 0, .real 1]) (.ofVector [.real 5, .real 4]) 1 = .real 1 := by
  have hx : (Matrix.ofVector [Exact.real 0, .real 1]).IsFinite :=
    Matrix.isFinite_ofVector (by simp [Exact.isFinite_iff])
  have hy : (Matrix.ofVector [Exact.real 5, .real 4]).IsFinite :=
    Matrix.isFinite_ofVector (by simp [Exact.isFinite_iff])
  refine ⟨hx, hy, (kraskovWith_formula id hx hy rfl le_rfl).1.trans ?_⟩
  set d := (Matrix.ofVector [Exact.real 0, .real 1]).gap with hd
  set e := (Matrix.ofVector [Exact.real 5, .real 4]).gap with he
  have hterm (i j : ℕ) (hother : (Finset.range 2).erase i = {j}) (hgap : d i j = 1)
      (hgap' : e i j = 1) : kraskovFormulaTerm id d e (Finset.range 2) 1 i = .real 2 := by
    unfold kraskovFormulaTerm closer
    rw [kthNearest_of_erase_eq hother, hother]
    norm_num [hgap, hgap', Finset.filter_singleton]
  have hfirst := hterm 0 1 rfl (by norm_num [hd, Matrix.gap_ofVector, Exact.toReal])
    (by norm_num [he, Matrix.gap_ofVector, Exact.toReal])
  have hsecond := hterm 1 0 rfl (by norm_num [hd, Matrix.gap_ofVector, Exact.toReal])
    (by norm_num [he, Matrix.gap_ofVector, Exact.toReal])
  have htotal : Exact.total ((Finset.range 2).val.map (kraskovFormulaTerm id d e (Finset.range 2) 1)) =
      .real 4 := by
    refine (Exact.sum_eq_total [_, _]).symm.trans ?_
    rw [hfirst, hsecond]
    exact (Exact.sum_map_real [2, 2]).trans (by norm_num)
  have hsize : (Matrix.ofVector [Exact.real 0, .real 1]).size = 2 := rfl
  unfold kraskovFormula
  rw [hsize, htotal, Finset.card_range, Exact.real_div (by norm_num)]
  norm_num

end InfoFlow
