import InfoFlow.Leakage.Report
import InfoFlow.Proofs.Leakage.Queries
import InfoFlow.Proofs.Scalar.Order

namespace InfoFlow

variable {α : Type} [Scalar α]

section Scan

variable {β : Type} {score : β → α} {xs ys : List β} {x y : β}

/-- The first entry of the highest score: those before it have lower scores, those after it none that is
higher. -/
def IsFirstHighest (score : β → α) (xs : List β) (x : β) : Prop :=
  ∃ before after, xs = before ++ x :: after ∧ (∀ y ∈ before, score y < score x) ∧
    ∀ y ∈ after, score y ≤ score x

namespace IsFirstHighest

theorem singleton (score : β → α) (x : β) : IsFirstHighest score [x] x :=
  ⟨[], [], rfl, by simp, by simp⟩

theorem mem (h : IsFirstHighest score xs x) : x ∈ xs := by
  obtain ⟨before, after, rfl, _, _⟩ := h
  simp

/-- Entries that are not higher change nothing when they are added at the end. -/
theorem append_le (h : IsFirstHighest score xs x) (hys : ∀ y ∈ ys, score y ≤ score x) :
    IsFirstHighest score (xs ++ ys) x := by
  obtain ⟨before, after, rfl, hbefore, hafter⟩ := h
  refine ⟨before, after ++ ys, by simp, hbefore, fun z hz => ?_⟩
  exact (List.mem_append.mp hz).elim (hafter z) (hys z)

variable [LawfulOrder α]

theorem le_of_mem (h : IsFirstHighest score xs x) (hx : Scalar.isNaN (score x) = false) {z : β}
    (hz : z ∈ xs) : score z ≤ score x := by
  obtain ⟨before, after, rfl, hbefore, hafter⟩ := h
  rcases List.mem_append.mp hz with hz | hz
  · exact Scalar.le_of_lt (hbefore z hz)
  · rcases List.mem_cons.mp hz with rfl | hz
    · exact Scalar.le_refl hx
    · exact hafter z hz

/-- What is higher than the highest entry is higher than all. -/
theorem lt_of_mem (h : IsFirstHighest score xs x) (hy : score x < score y) {z : β} (hz : z ∈ xs) :
    score z < score y := by
  obtain ⟨before, after, rfl, hbefore, hafter⟩ := h
  rcases List.mem_append.mp hz with hz | hz
  · exact Scalar.lt_of_lt_of_le (hbefore z hz) (Scalar.le_of_lt hy)
  · rcases List.mem_cons.mp hz with rfl | hz
    · exact hy
    · exact Scalar.lt_of_le_of_lt (hafter z hz) hy

/-- A higher entry at the end takes over. -/
theorem append_lt (h : IsFirstHighest score xs x) (hy : score x < score y) :
    IsFirstHighest score (xs ++ [y]) y :=
  ⟨xs, [], rfl, fun _ => h.lt_of_mem hy, by simp⟩

/-- More entries, of which the highest is higher than those before: it takes over. -/
theorem append_highest {z : β} (h : IsFirstHighest score xs x) (hz : z ∈ xs)
    (hys : IsFirstHighest score (z :: ys) y) (hy : score x < score y) :
    IsFirstHighest score (xs ++ ys) y := by
  obtain ⟨before, after, hsplit, hbefore, hafter⟩ := hys
  rcases List.cons_eq_append_iff.mp hsplit with ⟨rfl, hcons⟩ | ⟨before, rfl, rfl⟩
  · obtain ⟨rfl, rfl⟩ := List.cons.inj hcons
    exact absurd (h.lt_of_mem hy hz) (Scalar.lt_irrefl _)
  · refine ⟨xs ++ before, after, by simp, fun w hw => ?_, hafter⟩
    rcases List.mem_append.mp hw with hw | hw
    · exact h.lt_of_mem hy hw
    · exact hbefore w (List.mem_cons_of_mem z hw)

/-- More entries, of which the highest is that before or higher: it takes over. -/
theorem trans (h : IsFirstHighest score xs x) (hys : IsFirstHighest score (x :: ys) y) :
    IsFirstHighest score (xs ++ ys) y := by
  obtain ⟨before, after, hsplit, hbefore, hafter⟩ := id hys
  rcases List.cons_eq_append_iff.mp hsplit with ⟨rfl, hcons⟩ | ⟨before, rfl, _⟩
  · obtain ⟨rfl, rfl⟩ := List.cons.inj hcons
    exact h.append_le hafter
  · exact h.append_highest h.mem hys (hbefore x List.mem_cons_self)

/-- More entries, of which the highest is not higher than that before: it stays. -/
theorem append_of_highest_le {z : β} (h : IsFirstHighest score xs x)
    (hys : IsFirstHighest score (z :: ys) y) (hy : score y ≤ score x) :
    IsFirstHighest score (xs ++ ys) x := by
  obtain ⟨before, after, hsplit, hbefore, hafter⟩ := hys
  refine h.append_le fun w hw => ?_
  have hw : w ∈ before ++ y :: after := hsplit ▸ List.mem_cons_of_mem z hw
  rcases List.mem_append.mp hw with hw | hw
  · exact LawfulOrder.le_trans (Scalar.le_of_lt (hbefore w hw)) hy
  · rcases List.mem_cons.mp hw with rfl | hw
    · exact hy
    · exact LawfulOrder.le_trans (hafter w hw) hy

end IsFirstHighest

/-- The first two entries are compared, and the scan goes on from the higher one, the first on a tie. -/
theorem firstHighest_cons_cons (score : β → α) (x y : β) (xs : List β) :
    firstHighest score (x :: y :: xs) =
      firstHighest score ((if score y ≤ score x then x else y) :: xs) := by
  unfold firstHighest
  simp only [List.foldl_cons, apply_ite some]

variable [LawfulOrder α]

/-- The scan keeps the first of the highest entries among those it has passed. -/
theorem exists_firstHighest (hne : xs ≠ []) (hnumbers : ∀ x ∈ xs, Scalar.isNaN (score x) = false) :
    ∃ x, firstHighest score xs = some x ∧ IsFirstHighest score xs x := by
  have hscan (rest : List β) (passed : List β) (best : β) (hbest : IsFirstHighest score passed best)
      (hmem : best ∈ xs) (hrest : rest ⊆ xs) :
      ∃ x, firstHighest score (best :: rest) = some x ∧
        IsFirstHighest score (passed ++ rest) x := by
    induction rest generalizing passed best with
    | nil => exact ⟨best, rfl, by rwa [List.append_nil]⟩
    | cons y rest ih =>
      have hy : y ∈ xs := hrest List.mem_cons_self
      have hrest' : rest ⊆ xs := fun z hz => hrest (List.mem_cons_of_mem y hz)
      rw [firstHighest_cons_cons, List.append_cons]
      by_cases hle : score y ≤ score best
      · rw [if_pos hle]
        exact ih _ best (hbest.append_le (by simpa using hle)) hmem hrest'
      · rw [if_neg hle]
        have hlt := Scalar.lt_of_not_le (hnumbers y hy) (hnumbers best hmem) hle
        exact ih _ y (hbest.append_lt hlt) hy hrest'
  cases xs with
  | nil => exact absurd rfl hne
  | cons x xs =>
    exact hscan xs [x] x (.singleton score x) List.mem_cons_self fun z hz =>
      List.mem_cons_of_mem x hz

end Scan

section Numbers

variable [LawfulOrder α] [LawfulUnits α]

omit [LawfulOrder α] in
theorem Units.isNaN_ofNats {x : α} (units : Units) (hx : Scalar.isNaN x = false) :
    Scalar.isNaN (units.ofNats x) = false := by
  cases units with
  | nats => exact hx
  | bits => exact LawfulUnits.isNaN_div_ln2 hx

theorem isNaN_estimate (secret output : Samples α) (p : EstimatorParams) :
    Scalar.isNaN (estimate secret output p).1 = false := by
  unfold estimate
  simp only
  split
  · exact LawfulOrder.isNaN_zero
  · exact p.units.isNaN_ofNats (Scalar.isNaN_max_zero _)

omit [LawfulUnits α] in
theorem Vulnerability.isNaN_minEntropyLeakage (v : Vulnerability α) (units : Units) :
    Scalar.isNaN (v.minEntropyLeakage units) = false := by
  unfold minEntropyLeakage
  split
  · exact LawfulOrder.isNaN_zero
  · cases units with
    | bits => exact Scalar.isNaN_max_zero _
    | nats => exact Scalar.isNaN_max_zero _

namespace Trace

variable {t : Trace α} {query : LeakageQuery} {r : LeakageReport α}

theorem isNaN_of_reportEntry {output : Samples α} {secret : QueriedSecret α}
    {entry : ReportEntry α} (h : reportEntry query output secret = .ok entry) :
    Scalar.isNaN entry.score = false := by
  rw [(entry_of_reportEntry h).2]
  cases query.measure with
  | minEntropy => exact Vulnerability.isNaN_minEntropyLeakage _ _
  | mutualInformation =>
    cases secret.isReachable with
    | true => exact isNaN_estimate _ _ _
    | false => exact LawfulOrder.isNaN_zero

/-- No score of a report is a NaN, whatever the samples are. -/
theorem isNaN_of_leakage (h : t.leakage query = pure r) :
    ∀ entry ∈ r.entries, Scalar.isNaN entry.score = false := by
  obtain ⟨_, _, _, output, secrets, entries, _, _, hentries, rfl⟩ := leakage_eq_pure_iff.mp h
  intro entry hentry
  obtain ⟨_, _, hreported⟩ := hentries.exists_of_mem_right hentry
  exact isNaN_of_reportEntry hreported

end Trace

omit [LawfulUnits α] in
/-- The highest score is one of the scores, or 0. -/
theorem LeakageReport.isNaN_highestScore {r : LeakageReport α}
    (h : ∀ entry ∈ r.entries, Scalar.isNaN entry.score = false) :
    Scalar.isNaN r.highestScore = false := by
  unfold highestScore highest?
  by_cases hne : r.entries = []
  · rw [hne]
    exact LawfulOrder.isNaN_zero
  · obtain ⟨entry, hfound, hhighest⟩ := exists_firstHighest hne h
    rw [hfound]
    exact h entry hhighest.mem

end Numbers

end InfoFlow
