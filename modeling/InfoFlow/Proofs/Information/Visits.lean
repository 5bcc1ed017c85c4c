import InfoFlow.Proofs.Information.Nearest

namespace InfoFlow

namespace PointSet

variable {α τ : Type} [Scalar α] {s : PointSet α} {c : Cursor} {x : α} {i fuel : Nat}
  {visit : τ → Nat → α → Option τ} {t t' : τ} {calls : List (Nat × α)}

section Loop

/-- A walk outwards from a stretch, with the calls that it makes and the state that it ends in. It ends where
there is no next row, or with a call that answers none. -/
inductive Walks (s : PointSet α) (x : α) (visit : τ → Nat → α → Option τ) :
    Cursor → τ → List (Nat × α) → τ → Prop where
  | ended {c : Cursor} {t : τ} : s.next? x c = none → Walks s x visit c t [] t
  | stopped {c c' : Cursor} {t : τ} {j : Nat} {gap : α} : s.next? x c = some ((j, gap), c') →
      visit t j gap = none → Walks s x visit c t [(j, gap)] t
  | continued {c c' : Cursor} {t t' last : τ} {j : Nat} {gap : α} {calls : List (Nat × α)} :
      s.next? x c = some ((j, gap), c') → visit t j gap = some t' →
      Walks s x visit c' t' calls last → Walks s x visit c t ((j, gap) :: calls) last

/-- There is one way only for a walk to go. -/
theorem Walks.unique {others : List (Nat × α)} {last last' : τ} (h : s.Walks x visit c t calls last)
    (h' : s.Walks x visit c t others last') : others = calls ∧ last' = last := by
  induction h generalizing others with
  | ended hnone =>
    cases h' with
    | ended => exact ⟨rfl, rfl⟩
    | stopped hnext => cases hnone.symm.trans hnext
    | continued hnext => cases hnone.symm.trans hnext
  | stopped hnext hvisit =>
    cases h' with
    | ended hnone => cases hnone.symm.trans hnext
    | stopped hnext' =>
      cases hnext.symm.trans hnext'
      exact ⟨rfl, rfl⟩
    | continued hnext' hvisit' =>
      cases hnext.symm.trans hnext'
      cases hvisit.symm.trans hvisit'
  | continued hnext hvisit hrest ih =>
    cases h' with
    | ended hnone => cases hnone.symm.trans hnext
    | stopped hnext' hvisit' =>
      cases hnext.symm.trans hnext'
      cases hvisit.symm.trans hvisit'
    | continued hnext' hvisit' hrest' =>
      cases hnext.symm.trans hnext'
      cases hvisit.symm.trans hvisit'
      obtain ⟨rfl, rfl⟩ := ih hrest'
      exact ⟨rfl, rfl⟩

/-- The calls on some rows up to the first one that answers none. -/
def callsUntil (visit : τ → Nat → α → Option τ) : τ → List (Nat × α) → List (Nat × α)
  | _, [] => []
  | t, (j, gap) :: ps =>
    (j, gap) :: match visit t j gap with
      | none => []
      | some t => callsUntil visit t ps

/-- The state after some calls, if they all answer one. -/
def stateAfter (visit : τ → Nat → α → Option τ) (t : τ) (calls : List (Nat × α)) : Option τ :=
  calls.foldlM (fun t p => visit t p.1 p.2) t

omit [Scalar α] in
theorem callsUntil_prefix (ps : List (Nat × α)) : callsUntil visit t ps <+: ps := by
  induction ps generalizing t with
  | nil => exact List.prefix_rfl
  | cons p ps ih =>
    unfold callsUntil
    rw [List.cons_prefix_cons]
    refine ⟨rfl, ?_⟩
    cases visit t p.1 p.2 with
    | none => exact List.nil_prefix
    | some t' => exact ih

omit [Scalar α] in
theorem stateAfter_cons (p : Nat × α) (calls : List (Nat × α)) : stateAfter visit t (p :: calls) =
    (visit t p.1 p.2).bind fun t => stateAfter visit t calls := rfl

omit [Scalar α] in
/-- All calls before the last one answer a state. -/
theorem isSome_stateAfter_dropLast (ps : List (Nat × α)) :
    (stateAfter visit t (callsUntil visit t ps).dropLast).isSome := by
  induction ps generalizing t with
  | nil => rfl
  | cons p ps ih =>
    unfold callsUntil
    cases hvisit : visit t p.1 p.2 with
    | none => rfl
    | some t' =>
      have hrest := ih (t := t')
      dsimp only
      cases hcalls : callsUntil visit t' ps with
      | nil => rfl
      | cons q qs =>
        rw [hcalls] at hrest
        rw [List.dropLast_cons_cons, stateAfter_cons, hvisit]
        exact hrest

omit [Scalar α] in
/-- If the last one does, too, no row is left. -/
theorem callsUntil_eq {ps : List (Nat × α)} (h : (stateAfter visit t (callsUntil visit t ps)).isSome) :
    callsUntil visit t ps = ps := by
  induction ps generalizing t with
  | nil => rfl
  | cons p ps ih =>
    unfold callsUntil at h ⊢
    rw [stateAfter_cons] at h
    cases hvisit : visit t p.1 p.2 with
    | none =>
      rw [hvisit] at h
      cases h
    | some t' =>
      rw [hvisit] at h
      exact congrArg (p :: ·) (ih h)

variable (hs : s.WellFormed)

include hs

/-- A walk goes through the rows outwards from its stretch, as far as the visits let it. -/
theorem walks_outwards (hc : c.Around s i) (hfuel : s.size ≤ fuel + (c.visited + 1)) :
    s.Walks x visit c t (callsUntil visit t (s.outwards x fuel c))
      (visitUntil visit t (s.outwards x fuel c)) := by
  induction fuel generalizing c t with
  | zero =>
    obtain ⟨hleft, hlt, hright⟩ := hc
    refine .ended ((next?_eq_none_iff (Cursor.Around.within ⟨hleft, hlt, hright⟩)).mpr ?_)
    unfold Cursor.visited at hfuel
    omega
  | succ fuel ih =>
    unfold outwards
    cases hnext : s.next? x c with
    | none => exact .ended hnext
    | some step =>
      obtain ⟨⟨j, gap⟩, c'⟩ := step
      obtain ⟨hc', hvisited, -, -⟩ := hc.next hs hnext
      dsimp only
      unfold callsUntil visitUntil
      cases hvisit : visit t j gap with
      | none => exact .stopped hnext hvisit
      | some t' => exact .continued hnext hvisit (ih hc' (by omega))

end Loop

section Matrices

variable {m : Matrix α}

/-- A walk from row `i`. -/
def WalksFrom (s : PointSet α) (i : Nat) (visit : τ → Nat → α → Option τ) (t : τ)
    (calls : List (Nat × α)) (last : τ) : Prop :=
  s.Walks (s.first i) visit ⟨s.rank.getD i 0, s.rank.getD i 0 + 1⟩ t calls last

/-- The calls are about rows other than `i`, each of them once at most, with the gaps between the first entries
in increasing order. All but the last answer a state, and if that one does, too, they are about all other
rows. -/
structure AreCalls (m : Matrix α) (i : Nat) (visit : τ → Nat → α → Option τ) (t : τ)
    (calls : List (Nat × α)) : Prop where
  rows_nodup : (calls.map Prod.fst).Nodup
  isOther : ∀ p ∈ calls, p.1 < m.size ∧ p.1 ≠ i
  gap_eq : ∀ p ∈ calls, (p.2 == Scalar.abs (firstOf m i - firstOf m p.1)) = true
  gap_zero : m.width = 0 → ∀ p ∈ calls, (p.2 == 0) = true
  sorted : calls.Pairwise fun p q => p.2 ≤ q.2
  goesOn : (stateAfter visit t calls.dropLast).isSome
  complete : (stateAfter visit t calls).isSome → ∀ j < m.size, j ≠ i → j ∈ calls.map Prod.fst

variable [LawfulScalar α] [LawfulOrder α] [LawfulBounds α] [LawfulGaps α] [LawfulDistances α]

/-- The gap to a row is the absolute difference of the first entries, since the rows on the left have smaller
ones, and those on the right larger ones. -/
theorem gap_beq_abs (hm : m.IsFinite) (hi : i < m.size) {p : Nat × α} (hp : p ∈ (ofMatrix m).tour i) :
    (p.2 == Scalar.abs (firstOf m i - firstOf m p.1)) = true := by
  have hs := ofMatrix_wellFormed m
  have hsorted := ofMatrix_sorted hm
  have hfinite := isFinite_firstOf hm
  have hrank := hs.order_rank (hi.trans_eq (size_ofMatrix m).symm)
  rw [LawfulOrder.beq_iff_le_le]
  rcases of_mem_outwards hp with ⟨r, hlt, hj, hgap⟩ | ⟨r, hge, hj, hgap⟩
  · have hle : firstOf m p.1 ≤ firstOf m i := hsorted.first_le hj hrank hlt.le
    rw [hgap]
    exact ⟨LawfulGaps.sub_le_abs (hfinite i) (hfinite p.1),
      LawfulDistances.abs_sub_le (hfinite i) (hfinite p.1) hle⟩
  · have hle : firstOf m i ≤ firstOf m p.1 := hsorted.first_le hrank hj (by dsimp only at hge; omega)
    rw [hgap]
    exact ⟨LawfulGaps.sub_le_abs_comm (hfinite i) (hfinite p.1),
      LawfulDistances.abs_sub_le_comm (hfinite i) (hfinite p.1) hle⟩

omit [LawfulOrder α] [LawfulGaps α] [LawfulDistances α] in
theorem gap_beq_zero (hwidth : m.width = 0) {p : Nat × α} (hp : p ∈ (ofMatrix m).tour i) :
    (p.2 == 0) = true := by
  have hfirst (j : Nat) : firstOf m j = 0 := dif_neg (by omega)
  have hgap : p.2 = 0 - 0 := by
    rcases of_mem_outwards hp with ⟨r, -, -, hgap⟩ | ⟨r, -, -, hgap⟩
    · rw [hgap]
      exact congrArg₂ (· - ·) (hfirst i) (hfirst p.1)
    · rw [hgap]
      exact congrArg₂ (· - ·) (hfirst p.1) (hfirst i)
  rw [hgap]
  exact LawfulScalar.sub_self_beq Scalar.isFinite_zero

/-- However a visit answers, a walk ends, and there is one way only for it to go. -/
theorem walk_areCalls (hm : m.IsFinite) (hi : i < m.size) (visit : τ → Nat → α → Option τ) (t : τ) :
    ∃ calls, AreCalls m i visit t calls ∧ ∀ others last,
      (ofMatrix m).WalksFrom i visit t others last ↔
        others = calls ∧ last = (ofMatrix m).walk i visit t := by
  have hs := ofMatrix_wellFormed m
  have hi' : i < (ofMatrix m).size := hi.trans_eq (size_ofMatrix m).symm
  have hprefix : callsUntil visit t ((ofMatrix m).tour i) <+: (ofMatrix m).tour i := callsUntil_prefix _
  have hsublist := hprefix.sublist
  have hrows : ∀ j, j ∈ ((ofMatrix m).tour i).map Prod.fst ↔ j < m.size ∧ j ≠ i := by
    intro j
    rw [(tour_perm hs hi').mem_iff, size_ofMatrix, List.mem_filter, List.mem_range, bne_iff_ne]
  have hwalks : (ofMatrix m).WalksFrom i visit t (callsUntil visit t ((ofMatrix m).tour i))
      ((ofMatrix m).walk i visit t) := by
    rw [walk_eq]
    exact walks_outwards hs (Cursor.Around.start hs hi') (Nat.le_add_right _ _)
  refine ⟨callsUntil visit t ((ofMatrix m).tour i), ?_, fun others last => ?_⟩
  · constructor
    case rows_nodup =>
      have hnodup := (tour_perm hs hi').nodup_iff.mpr (List.nodup_range.filter _)
      exact hnodup.sublist (hsublist.map Prod.fst)
    case isOther => exact fun p hp => (hrows p.1).mp (List.mem_map_of_mem (hsublist.subset hp))
    case gap_eq => exact fun p hp => gap_beq_abs hm hi (hsublist.subset hp)
    case gap_zero => exact fun hwidth p hp => gap_beq_zero hwidth (hsublist.subset hp)
    case sorted => exact ((ofMatrix_sorted hm).pairwise_tour hs hi').sublist hsublist
    case goesOn => exact isSome_stateAfter_dropLast _
    case complete =>
      intro hall j hj hne
      rw [callsUntil_eq hall]
      exact (hrows j).mpr ⟨hj, hne⟩
  · constructor
    · exact hwalks.unique
    · rintro ⟨rfl, rfl⟩
      exact hwalks

/-- A visit that never stops is called on both twins, and on the point on the other side. One that stops at
once is called once. -/
theorem twins_areCalls : pointsWithTwins.IsFinite ∧ 1 < pointsWithTwins.size ∧
    (∃ calls, AreCalls pointsWithTwins 1 (fun n _ _ => some (n + 1)) 0 calls ∧
      ∀ j ∈ [0, 2, 3], j ∈ calls.map Prod.fst) ∧
    ∃ calls, AreCalls pointsWithTwins 1 (fun (_ : Unit) _ _ => none) () calls ∧ calls.length = 1 := by
  have hfinite : pointsWithTwins.IsFinite := by
    unfold Matrix.IsFinite
    decide +kernel
  have hsize : 1 < pointsWithTwins.size := by decide
  refine ⟨hfinite, hsize, ?_, ?_⟩
  · obtain ⟨calls, hcalls, -⟩ := walk_areCalls hfinite hsize (fun n _ _ => some (n + 1)) 0
    have hall : (stateAfter (fun n _ _ => some (n + 1)) 0 calls).isSome :=
      congrArg Option.isSome List.foldlM_pure
    have hothers : ∀ j ∈ [0, 2, 3], j < pointsWithTwins.size ∧ j ≠ 1 := by decide
    exact ⟨calls, hcalls, fun j hj => hcalls.complete hall j (hothers j hj).1 (hothers j hj).2⟩
  · obtain ⟨calls, hcalls, -⟩ := walk_areCalls hfinite hsize (fun (_ : Unit) _ _ => none) ()
    refine ⟨calls, hcalls, ?_⟩
    have hstops := hcalls.goesOn
    have hall := hcalls.complete
    match calls with
    | [] => exact absurd (hall rfl 0 (by decide) (by decide)) (List.not_mem_nil)
    | [_] => rfl
    | _ :: _ :: _ => cases hstops

end Matrices

end PointSet

end InfoFlow
