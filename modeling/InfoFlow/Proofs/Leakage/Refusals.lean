import InfoFlow.Proofs.Leakage.Curve
import InfoFlow.Proofs.Leakage.Queries

namespace InfoFlow

variable {ε β γ : Type}

/-- Every error of a computation satisfies `P`. -/
def Refuses (x : Except ε β) (P : ε → Prop) : Prop := ∀ e, x = .error e → P e

namespace Refuses

variable {P : ε → Prop}

theorem of_ok {b : β} : Refuses (.ok b : Except ε β) P := nofun

theorem of_error {e : ε} (he : P e) : Refuses (.error e : Except ε β) P := by
  rintro _ ⟨⟩
  exact he

theorem bind {x : Except ε β} {f : β → Except ε γ} (hx : Refuses x P)
    (hf : ∀ b, Refuses (f b) P) : Refuses (x >>= f) P := by
  intro e he
  cases x with
  | error fault =>
    cases he
    exact hx e rfl
  | ok b => exact hf b e he

theorem mapM {f : β → Except ε γ} (hf : ∀ b, Refuses (f b) P) (xs : List β) :
    Refuses (xs.mapM f) P := by
  induction xs with
  | nil => exact of_ok
  | cons x xs ih =>
    rw [List.mapM_cons]
    exact (hf x).bind fun _ => ih.bind fun _ => of_ok

end Refuses

/-- Where an error reports samples, they are fewer than it asks for. -/
def LeakageError.IsTruthful : LeakageError → Prop
  | insufficientSamples available required => available < required
  | _ => True

section Estimates

variable {α : Type} {p : EstimatorParams}

theorem validate_refuses (p : EstimatorParams) : Refuses p.validate LeakageError.IsTruthful := by
  unfold EstimatorParams.validate
  split
  · exact .of_error trivial
  · exact .of_ok

theorem checkSizes_refuses (secret output : ℕ) :
    Refuses (checkSizes secret output p) LeakageError.IsTruthful := by
  rw [checkSizes_eq]
  split
  · exact .of_error trivial
  · split
    · rename_i hfew
      exact .of_error hfew
    · exact .of_ok

variable [Scalar α]

theorem mutualInformation_refuses (secret output : Samples α) (p : EstimatorParams) :
    Refuses (mutualInformation secret output p) LeakageError.IsTruthful :=
  (validate_refuses p).bind fun _ => (checkSizes_refuses _ _).bind fun _ => .of_ok

end Estimates

section Curve

variable {α : Type} [Scalar α] {secret output : Samples α} {p : EstimatorParams} {sizes : List ℕ}
  {deltas : List α} {window : ℕ} {isRelative : Bool}

theorem start_refuses (deltas : List α) (window : ℕ) (isRelative : Bool) :
    Refuses (Convergence.start deltas window isRelative) fun e => ∃ fault, e = .invalidParams fault := by
  intro e he
  unfold Convergence.start at he
  split_ifs at he <;> cases he <;> exact ⟨_, rfl⟩

/-- A run over sizes that reach the floor fails for want of neighbors only. -/
theorem foldlM_curveSizes_refuses (sizes : List ℕ) {start : Convergence α}
    (hstart : Convergence.start deltas window isRelative = .ok start)
    (hlength : secret.size = output.size) :
    Refuses ((curveSizes sizes secret.size p.sampleFloor.toNat).foldlM (extendCurve secret output p)
      start) fun e => e = .invalidParams .noNeighbors := by
  by_cases hneighbors : p.neighbors = 0
  · cases curveSizes sizes secret.size p.sampleFloor.toNat with
    | nil => exact .of_ok
    | cons size rest =>
      have hstep : extendCurve secret output p start size = .error (.invalidParams .noNeighbors) := by
        rw [extendCurve, mutualInformation_eq, if_pos hneighbors]
        rfl
      rw [List.foldlM_cons, hstep]
      exact .of_error rfl
  · obtain ⟨_, hrun, _⟩ := foldlM_curveSizes sizes hstart hneighbors hlength
    rw [hrun]
    exact .of_ok

/-- What is left of drawing a curve once its deltas are accepted. -/
theorem leakageCurve_eq_of_start {start : Convergence α} (hlength : secret.size = output.size)
    (hstart : Convergence.start deltas window isRelative = .ok start) :
    leakageCurve secret output p sizes deltas window isRelative =
      if curveSizes sizes secret.size p.sampleFloor.toNat = [] then
        .error (.insufficientSamples secret.size p.sampleFloor.toNat)
      else (curveSizes sizes secret.size p.sampleFloor.toNat).foldlM (extendCurve secret output p)
        start >>= fun c => .ok ⟨c.points, c.summary⟩ := by
  unfold leakageCurve
  rw [if_neg (not_not.mpr hlength), hstart]
  by_cases hnil : curveSizes sizes secret.size p.sampleFloor.toNat = []
  · rw [if_pos hnil]
    exact if_pos (List.isEmpty_iff.mpr hnil)
  · rw [if_neg hnil]
    exact if_neg fun hempty => hnil (List.isEmpty_iff.mp hempty)

/-- A curve reports too few samples exactly when no size reaches the floor, and then it reports all the
samples there are. -/
theorem leakageCurve_eq_insufficientSamples_iff {available required : ℕ} :
    leakageCurve secret output p sizes deltas window isRelative =
        .error (.insufficientSamples available required) ↔
      secret.size = output.size ∧ Convergence.AreDeltas deltas ∧ 1 ≤ window ∧
        (∀ s ∈ sizes, min s secret.size < p.sampleFloor.toNat) ∧
        available = secret.size ∧ required = p.sampleFloor.toNat := by
  have hsizes : curveSizes sizes secret.size p.sampleFloor.toNat = [] ↔
      ∀ s ∈ sizes, min s secret.size < p.sampleFloor.toNat := by
    simp only [List.eq_nil_iff_forall_not_mem, mem_curveSizes, not_and, not_exists]
    exact ⟨fun h s hs => not_le.mp fun hle => h _ hle s hs rfl,
      fun h _ hle s hs heq => absurd hle (not_le.mpr (heq ▸ h s hs))⟩
  rw [← hsizes]
  by_cases hlength : secret.size = output.size
  · cases hstart : Convergence.start deltas window isRelative with
    | error e =>
      obtain ⟨fault, rfl⟩ := start_refuses deltas window isRelative e hstart
      refine iff_of_false ?_ fun ⟨_, hdeltas, hwindow, _⟩ => ?_
      · unfold leakageCurve
        rw [if_neg (not_not.mpr hlength), hstart]
        exact nofun
      · rw [Convergence.start_eq_ok_iff.mpr ⟨hdeltas, Nat.one_le_iff_ne_zero.mp hwindow, rfl⟩]
          at hstart
        cases hstart
    | ok start =>
      obtain ⟨hdeltas, hwindow, _⟩ := Convergence.start_eq_ok_iff.mp hstart
      have hone := Nat.one_le_iff_ne_zero.mpr hwindow
      rw [leakageCurve_eq_of_start hlength hstart]
      split
      · rename_i hnil
        constructor
        · rintro ⟨⟩
          exact ⟨hlength, hdeltas, hone, hnil, rfl, rfl⟩
        · rintro ⟨_, _, _, _, rfl, rfl⟩
          rfl
      · rename_i hne
        refine iff_of_false (fun h => ?_) fun h => hne h.2.2.2.1
        have hrefused := (foldlM_curveSizes_refuses (p := p) sizes hstart hlength).bind
          (fun c => .of_ok (b := (⟨c.points, c.summary⟩ : LeakageCurve α))) _ h
        cases hrefused
  · refine iff_of_false ?_ fun h => hlength h.1
    unfold leakageCurve
    rw [if_pos hlength]
    exact nofun

end Curve

namespace Queried

variable {x : Queried β} {P : LeakageError → Prop}

/-- Every error of a part of a query satisfies `P`. -/
def Refuses (x : Queried β) (P : LeakageError → Prop) : Prop := ∀ e, x = throw e → P e

theorem Refuses.of_pure {b : β} : Refuses (pure b) P := nofun

theorem Refuses.of_throw {e : LeakageError} (he : P e) : Refuses (throw e : Queried β) P := by
  rintro _ ⟨⟩
  exact he

theorem Refuses.bind {f : β → Queried γ} (hx : x.Refuses P) (hf : ∀ b, (f b).Refuses P) :
    (x >>= f).Refuses P := by
  intro e he
  match x with
  | .error .outOfBounds => cases he
  | .ok (.error fault) =>
    cases he
    exact hx e rfl
  | .ok (.ok b) => exact hf b e he

theorem Refuses.of_except {y : Except LeakageError β} (hy : InfoFlow.Refuses y P) :
    (ofExcept y).Refuses P := by
  rintro e ⟨⟩
  exact hy e rfl

theorem Refuses.of_lookup {selector : String} (l : Lookup β) (hP : P (.unknownVariable selector)) :
    (lookup selector l).Refuses P := by
  intro e he
  match l with
  | .error .outOfBounds => cases he
  | .ok none =>
    cases he
    exact hP
  | .ok (some b) => cases he

theorem Refuses.mapM {f : β → Queried γ} (hf : ∀ b, (f b).Refuses P) (xs : List β) :
    (xs.mapM f).Refuses P := by
  induction xs with
  | nil => exact of_pure
  | cons x xs ih =>
    rw [List.mapM_cons]
    exact (hf x).bind fun _ => ih.bind fun _ => of_pure

end Queried

namespace Trace

variable {α : Type} [Scalar α]

theorem reportEntry_refuses (query : LeakageQuery) (output : Samples α) (secret : QueriedSecret α) :
    Refuses (reportEntry query output secret) LeakageError.IsTruthful := by
  unfold reportEntry
  refine (checkSizes_refuses _ _).bind fun _ => ?_
  split
  · split <;> exact .of_ok
  · exact .of_ok

theorem leakage_refuses (t : Trace α) (query : LeakageQuery) :
    (t.leakage query).Refuses LeakageError.IsTruthful := by
  have hrest : Queried.Refuses (do
      Queried.ofExcept query.params.validate
      let output ← t.queriedOutput query.outputs
      let secrets ← query.secrets.mapM t.queriedSecret
      let entries ← Queried.ofExcept ((secrets.mergeSort isBefore).mapM (reportEntry query output))
      return (⟨entries, query.outputs, output.size, query.params, query.measure⟩ :
        LeakageReport α)) LeakageError.IsTruthful := by
    refine (Queried.Refuses.of_except (validate_refuses _)).bind fun _ => ?_
    refine Queried.Refuses.bind ?_ fun output => ?_
    · unfold queriedOutput
      refine (Queried.Refuses.mapM (fun _ => .of_lookup _ trivial) _).bind fun columns => ?_
      split
      · exact .of_pure
      · exact .of_throw trivial
    · refine (Queried.Refuses.mapM (fun _ => .of_lookup _ trivial) _).bind fun secrets => ?_
      exact (Queried.Refuses.of_except (.mapM (reportEntry_refuses query output) _)).bind
        fun _ => .of_pure
  unfold leakage
  split
  · exact .of_throw trivial
  · exact hrest

end Trace

end InfoFlow
