import InfoFlow.Information.Samples
import InfoFlow.Proofs.Scalar.Double
import InfoFlow.Proofs.Scalar.Exact

namespace InfoFlow

open Float.Model

section Names

variable {β γ : Type} [BEq β] [LawfulBEq β] [BEq γ] [LawfulBEq γ] {f : β → γ}

/-- Symbols with other names first appear in the same order. -/
theorem eraseDups_map (hf : f.Injective) (xs : List β) :
    (xs.map f).eraseDups = xs.eraseDups.map f := by
  induction hn : xs.length using Nat.strong_induction_on generalizing xs with
  | h n ih =>
    cases xs with
    | nil => rfl
    | cons x xs =>
      have hshort : (xs.filter fun y => !y == x).length < n := by
        have hle := List.length_filter_le (fun y => !y == x) xs
        rw [List.length_cons] at hn
        omega
      have hsame : ((fun y => !y == f x) ∘ f) = fun y => !y == x := by
        funext y
        rw [Function.comp_apply, Bool.eq_iff_iff]
        simp [hf.eq_iff]
      rw [List.map_cons, List.eraseDups_cons, List.eraseDups_cons, List.map_cons, List.filter_map,
        hsame, ih _ hshort _ rfl]

theorem occurrences_map (hf : f.Injective) (xs : List β) :
    occurrences (xs.map f) = occurrences xs := by
  unfold occurrences
  rw [eraseDups_map hf, List.map_map]
  exact List.map_congr_left fun x _ => List.count_map_of_injective xs f hf x

variable {α : Type} [Scalar α]

/-- The names of symbols have no influence on their entropy. -/
theorem entropy_map (hf : f.Injective) (xs : List β) : (entropy (xs.map f) : α) = entropy xs := by
  unfold entropy
  rw [occurrences_map hf, List.length_map, List.isEmpty_map]

end Names

/-- Rounded sums have no order either. -/
instance Double.commutative_add : Std.Commutative (α := Float) (· + ·) where
  comm x y := by
    have hcomm : UnpackedFloat.add Format.binary64 (Double.unpacked x) (Double.unpacked y) =
        UnpackedFloat.add Format.binary64 (Double.unpacked y) (Double.unpacked x) := by
      rcases Double.unpacked x with (_ | _) | _ | (_ | _) | ⟨_ | _, m₁, e₁, h₁⟩ <;>
        rcases Double.unpacked y with (_ | _) | _ | (_ | _) | ⟨_ | _, m₂, e₂, h₂⟩ <;>
          simp [UnpackedFloat.add, Int.add_comm, min_comm]
    exact congrArg (fun u => Float.ofModel (Float.Model.pack u)) hcomm

section Sides

variable {α : Type} [Scalar α]

theorem plugIn_comm {β γ : Type} [BEq β] [LawfulBEq β] [BEq γ] [LawfulBEq γ]
    [Std.Commutative (α := α) (· + ·)] (xs : List β) (ys : List γ) :
    (plugIn xs ys : α) = plugIn ys xs := by
  have hpairs : (entropy (xs.zip ys) : α) = entropy (ys.zip xs) := by
    rw [← List.zip_swap ys xs]
    exact entropy_map Prod.swap_injective (ys.zip xs)
  have hsum : (entropy xs + entropy ys : α) = entropy ys + entropy xs := Std.Commutative.comm _ _
  unfold plugIn
  rw [hpairs, hsum]

variable {a b : Samples α}

omit [Scalar α] in
/-- The sides that label and are labelled are the same in both orders, if one of them only is discrete. -/
theorem mixedSides_comm (hkinds : a.isDiscrete ≠ b.isDiscrete) : mixedSides a b = mixedSides b a := by
  unfold mixedSides
  cases ha : a.isDiscrete <;> cases hb : b.isDiscrete <;> simp_all

theorem resolve_comm (e : Estimator) (s t : Bool) : e.resolve s t = e.resolve t s := by
  cases e with
  | auto => cases s <;> cases t <;> rfl
  | _ => rfl

variable [Std.Commutative (α := α) (· + ·)]

/-- The estimator that is chosen by kinds takes its sides in any order. -/
theorem estimateNatsFrom_comm {σ : Type} [RandomWords σ] (noise : σ) (k : Nat)
    (hkinds : a.isDiscrete = true ∨ b.isDiscrete = true) :
    estimateNatsFrom noise (Estimator.auto.resolve a.isDiscrete b.isDiscrete) k a b =
      estimateNatsFrom noise (Estimator.auto.resolve a.isDiscrete b.isDiscrete) k b a := by
  by_cases hsame : a.isDiscrete = b.isDiscrete
  · obtain ⟨ha, hb⟩ : a.isDiscrete = true ∧ b.isDiscrete = true := by
      rw [hsame] at hkinds ⊢
      exact ⟨hkinds.elim id id, hkinds.elim id id⟩
    rw [ha, hb]
    exact plugIn_comm a.ids b.ids
  · have hmixed : Estimator.auto.resolve a.isDiscrete b.isDiscrete = .mixed := by
      cases ha : a.isDiscrete <;> cases hb : b.isDiscrete <;> simp_all [Estimator.resolve]
    rw [hmixed]
    unfold estimateNatsFrom
    rw [mixedSides_comm hsame]

theorem estimate_comm {p : EstimatorParams} (hestimator : p.estimator = .auto)
    (hkinds : a.isDiscrete = true ∨ b.isDiscrete = true) : estimate a b p = estimate b a p := by
  unfold estimate
  dsimp only
  rw [hestimator, resolve_comm _ b.isDiscrete, Bool.or_comm b.values.isConstant,
    estimateNatsFrom_comm _ _ hkinds]

/-- Aligned sides of which one at least is discrete have the same mutual information in both orders, or are
refused for the same reason. -/
theorem mutualInformation_comm {p : EstimatorParams} (hsize : a.size = b.size)
    (hkinds : a.isDiscrete = true ∨ b.isDiscrete = true) (hestimator : p.estimator = .auto) :
    mutualInformation a b p = mutualInformation b a p := by
  unfold mutualInformation
  rw [hsize, estimate_comm hestimator hkinds]

/-- Four throws of a coin, two for each side. -/
noncomputable def fourThrows : Samples Exact :=
  ⟨.ofVector [.real 0, .real 1, .real 0, .real 1], true⟩

theorem ids_fourThrows : fourThrows.ids = [0, 1, 0, 1] := by
  simp [fourThrows, Samples.ids, Matrix.rowIds, Matrix.ofVector, Matrix.toLists, RowIds.assign,
    RowIds.assignFrom, RowIds.idOf?, RowIds.next, isSameRow, Scalar.totalEq, Exact.real_beq]

/-- No throw is the only one of its side. -/
theorem length_groupedSamples_fourThrows (c : Matrix Exact) :
    (groupedSamples c fourThrows.ids 1).length = 4 := by
  rw [ids_fourThrows]
  simp [groupedSamples, groupSamples, samplesOf, List.eraseDups_cons]

/-- Four throws of a coin and what they measure: the coin labels the measurements in both orders, and all
of them are kept. -/
theorem measuredCoin_comm :
    let measured : Samples Exact := ⟨.ofVector [0.5, 1.5, 0.25, 2], false⟩
    let p : EstimatorParams := { neighbors := 1, minSamples := 1 }
    fourThrows.size = measured.size ∧ (fourThrows.isDiscrete = true ∨ measured.isDiscrete = true) ∧
      p.estimator = .auto ∧ (groupedSamples measured.values fourThrows.ids 1).length = 4 ∧
      (∃ score, mutualInformation fourThrows measured p = .ok score) ∧
      mutualInformation fourThrows measured p = mutualInformation measured fourThrows p :=
  ⟨rfl, .inl rfl, rfl, length_groupedSamples_fourThrows _, ⟨_, rfl⟩,
    mutualInformation_comm rfl (.inl rfl) rfl⟩

end Sides

end InfoFlow
