import InfoFlow.Proofs.Information.RowIds

namespace InfoFlow.RowIds

variable {α : Type} [Scalar α] {ids : RowIds α} {row : List α} {rows more : List (List α)}

/-- The number after the largest one, which may be beyond a machine word; 0 if there is none. -/
def after (ids : RowIds α) : ℕ := ((ids.map fun entry => entry.2.toNat).max?).elim 0 (· + 1)

/-- The rows without a number, each where it first appears. -/
def newRows (ids : RowIds α) (rows : List (List α)) : List (List α) :=
  (rows.filter fun row => (ids.idOf? row).isNone).eraseDupsBy isSameRow

omit [Scalar α] in
theorem lt_after {entry : List α × UInt64} (h : entry ∈ ids) : entry.2.toNat < ids.after := by
  have hmem : entry.2.toNat ∈ ids.map fun entry => entry.2.toNat := List.mem_map_of_mem h
  unfold after
  cases hmax : (ids.map fun entry => entry.2.toNat).max? with
  | none => simp [List.max?_eq_none_iff.mp hmax] at hmem
  | some largest => exact Nat.lt_succ_of_le ((List.max?_eq_some_iff.mp hmax).2 _ hmem)

omit [Scalar α] in
theorem after_le {bound : ℕ} (h : ∀ entry ∈ ids, entry.2.toNat < bound) : ids.after ≤ bound := by
  unfold after
  cases hmax : (ids.map fun entry => entry.2.toNat).max? with
  | none => exact Nat.zero_le bound
  | some largest =>
    obtain ⟨entry, hentry, rfl⟩ := List.mem_map.mp (List.max?_mem hmax)
    exact h entry hentry

omit [Scalar α] in
theorem after_append (hroom : ids.after < UInt64.size) :
    after (ids ++ [(row, UInt64.ofNat ids.after)]) = ids.after + 1 := by
  have hnumber : (UInt64.ofNat ids.after).toNat = ids.after := UInt64.toNat_ofNat_of_lt' hroom
  have hmax : ((ids ++ [(row, UInt64.ofNat ids.after)]).map fun entry => entry.2.toNat).max?
      = some ids.after := by
    rw [List.max?_eq_some_iff]
    rw [List.map_append, List.map_singleton, hnumber]
    refine ⟨by simp, fun number hnumber => ?_⟩
    rcases List.mem_append.mp hnumber with hold | hnew
    · obtain ⟨entry, hentry, rfl⟩ := List.mem_map.mp hold
      exact (lt_after hentry).le
    · exact (List.mem_singleton.mp hnew).le
  rw [after, hmax]
  rfl

omit [Scalar α] in
/-- The first unused number is found on machine words, where it may wrap around. -/
theorem next_eq_after (ids : RowIds α) : ids.next = .ofNat ids.after := by
  have hmax (words : List UInt64) : (words.map UInt64.toNat).max? = words.max?.map UInt64.toNat := by
    cases words with
    | nil => rfl
    | cons first rest =>
      rw [List.map_cons, List.max?_cons', List.max?_cons', Option.map_some, List.foldl_map]
      exact congrArg some (List.foldl_hom UInt64.toNat fun x y => (UInt64.toNat_max x y).symm)
  have hnumbers : (ids.map fun entry => entry.2.toNat) = (ids.map (·.2)).map UInt64.toNat := by
    rw [List.map_map]
    rfl
  unfold next after
  rw [hnumbers, hmax]
  cases (ids.map (·.2)).max? with
  | none => rfl
  | some largest => simp [UInt64.ofNat_add]

omit [Scalar α] in
/-- The counter within a batch agrees with what the next batch would start from. -/
theorem next_append (hroom : ids.after < UInt64.size) :
    next (ids ++ [(row, ids.next)]) = ids.next + 1 := by
  rw [next_eq_after, next_eq_after, after_append hroom, UInt64.ofNat_add]
  rfl

theorem assignFrom_cons_of_known {fresh id : UInt64} (h : ids.idOf? row = some id) :
    ids.assignFrom fresh (row :: rows) =
      (id :: (ids.assignFrom fresh rows).1, (ids.assignFrom fresh rows).2) := by
  rw [assignFrom, h]

theorem assignFrom_cons_of_new (hroom : ids.after < UInt64.size) (h : ids.idOf? row = none) :
    ids.assignFrom ids.next (row :: rows) =
      let known := ids ++ [(row, ids.next)]
      (ids.next :: (known.assignFrom known.next rows).1, (known.assignFrom known.next rows).2) := by
  rw [assignFrom, h]
  simp only [next_append hroom]

omit [Scalar α] in
/-- What is preserved row by row: there is room for the rows that are left. -/
theorem after_append_add_le {left : ℕ} (hroom : ids.after + (left + 1) ≤ UInt64.size) :
    after (ids ++ [(row, ids.next)]) + left ≤ UInt64.size := by
  rw [next_eq_after, after_append (by omega)]
  omega

/-- Numbering goes on after some rows as it would with a new batch. -/
theorem assignFrom_append (hroom : ids.after + rows.length ≤ UInt64.size) :
    ids.assignFrom ids.next (rows ++ more) =
      let first := ids.assignFrom ids.next rows
      let second := first.2.assignFrom first.2.next more
      (first.1 ++ second.1, second.2) := by
  induction rows generalizing ids with
  | nil => rfl
  | cons row rows ih =>
    rw [List.length_cons] at hroom
    have hfirst : ids.after < UInt64.size := by omega
    cases hknown : ids.idOf? row with
    | some id =>
      rw [List.cons_append, assignFrom_cons_of_known hknown, assignFrom_cons_of_known hknown,
        ih (by omega)]
      rfl
    | none =>
      rw [List.cons_append, assignFrom_cons_of_new hfirst hknown,
        assignFrom_cons_of_new hfirst hknown]
      simp only [ih (after_append_add_le hroom), List.cons_append]

/-- Once a row has its number, the rows without one are those that are not the same. -/
theorem newRows_append [LawfulOrder α] {id : UInt64} (h : ids.idOf? row = none) :
    newRows ids (row :: rows) = row :: newRows (ids ++ [(row, id)]) rows := by
  have hrest (other : List α) : (idOf? (ids ++ [(row, id)]) other).isNone =
      (decide (isSameRow other row = false) && (ids.idOf? other).isNone) := by
    cases hother : ids.idOf? other with
    | some number => simp [idOf?_append hother]
    | none =>
      rw [idOf?_append_singleton hother, isSameRow_comm]
      cases isSameRow other row <;> rfl
  unfold newRows
  rw [List.filter_cons_of_pos (by simp [h]), List.eraseDupsBy_cons, List.filter_filter]
  simp only [hrest]

/-- The new rows are added in order, with the numbers from the first unused one on. -/
theorem exists_added [LawfulOrder α] (hroom : ids.after + rows.length ≤ UInt64.size) :
    ∃ added : RowIds α, (ids.assignFrom ids.next rows).2 = ids ++ added ∧
      added.map (fun entry => (entry.1, entry.2.toNat)) =
        (newRows ids rows).zipIdx ids.after := by
  induction rows generalizing ids with
  | nil => exact ⟨[], (List.append_nil ids).symm, rfl⟩
  | cons row rows ih =>
    rw [List.length_cons] at hroom
    have hfirst : ids.after < UInt64.size := by omega
    cases hknown : ids.idOf? row with
    | some id =>
      have hrest : ids.after + rows.length ≤ UInt64.size := by omega
      obtain ⟨added, hall, hadded⟩ := ih hrest
      refine ⟨added, ?_, ?_⟩
      · rw [assignFrom_cons_of_known hknown, hall]
      · rw [hadded, newRows, newRows, List.filter_cons_of_neg (by simp [hknown])]
    | none =>
      have hrest : after (ids ++ [(row, ids.next)]) + rows.length ≤ UInt64.size :=
        after_append_add_le hroom
      obtain ⟨added, hall, hadded⟩ := ih hrest
      refine ⟨(row, ids.next) :: added, ?_, ?_⟩
      · rw [assignFrom_cons_of_new hfirst hknown]
        simp only [hall, List.append_assoc, List.singleton_append]
      · have hnumber : ids.next.toNat = ids.after := by
          rw [next_eq_after, UInt64.toNat_ofNat_of_lt' hfirst]
        rw [next_eq_after, after_append hfirst, ← next_eq_after] at hadded
        rw [newRows_append hknown, List.map_cons, List.zipIdx_cons, hadded, hnumber]

/-- What numbering rows comes to. -/
structure IsNumbering (ids : RowIds α) (rows : List (List α)) (result : List UInt64 × RowIds α) :
    Prop where
  /-- Earlier numbers stay where they are, new rows get the following ones in order of appearance. -/
  added : ∃ added : RowIds α, result.2 = ids ++ added ∧
    added.map (fun entry => (entry.1, entry.2.toNat)) = (newRows ids rows).zipIdx ids.after
  assigned : Assigned ids result.2 rows result.1
  /-- Rows have one number if they are equal entry by entry, where a NaN equals a NaN. -/
  eq_iff : ∀ x ∈ rows.zip result.1, ∀ y ∈ rows.zip result.1, x.2 = y.2 ↔
    x.1.Forall₂ (fun a b => (a == b) = true ∨ Scalar.isNaN a = true ∧ Scalar.isNaN b = true) y.1

variable [LawfulOrder α]

theorem Assigned.eq_iff {known : RowIds α} {numbers : List UInt64}
    (h : Assigned ids known rows numbers) {x y : List α × UInt64} (hx : x ∈ rows.zip numbers)
    (hy : y ∈ rows.zip numbers) : x.2 = y.2 ↔ isSameRow x.1 y.1 = true := by
  have hfirst : known.idOf? x.1 = some x.2 := (List.forall₂_iff_zip.mp h.idOf?).2 hx
  have hsecond : known.idOf? y.1 = some y.2 := (List.forall₂_iff_zip.mp h.idOf?).2 hy
  constructor
  · intro heq
    exact isSameRow_of_idOf? h.nodup hfirst (heq ▸ hsecond)
  · intro hsame
    rw [idOf?_congr hsame, hsecond] at hfirst
    exact (Option.some.inj hfirst).symm

theorem isNumbering_assignFrom (hnodup : (ids.map Prod.snd).Nodup)
    (hroom : ids.after + rows.length ≤ UInt64.size) :
    IsNumbering ids rows (ids.assignFrom ids.next rows) := by
  have hassigned := assignFrom_assigned rows ⟨hnodup, fun _ => lt_after⟩ hroom
  rw [← next_eq_after] at hassigned
  refine ⟨exists_added hroom, hassigned, fun x hx y hy => ?_⟩
  rw [hassigned.eq_iff hx hy, isSameRow_iff_forall₂]
  simp only [Scalar.totalEq, Bool.or_eq_true, Bool.and_eq_true]

/-- Numbering the rows of one matrix and then those of another with the numbers of the first is the same
as numbering the rows of both at once. -/
theorem assign_of_stack {a b c : Matrix α} (hc : a.stack? b = some c)
    (hnodup : (ids.map Prod.snd).Nodup) (hsize : c.size ≤ UInt64.size)
    (hbelow : ∀ entry ∈ ids, entry.2.toNat < UInt64.size - c.size) :
    ids.assign c = ((ids.assign a).1 ++ ((ids.assign a).2.assign b).1,
        ((ids.assign a).2.assign b).2) ∧
      IsNumbering ids c.toLists (ids.assign c) := by
  have hrows : c.toLists = a.toLists ++ b.toLists := Matrix.toLists_of_stack? hc
  have hroom : ids.after + c.toLists.length ≤ UInt64.size := by
    have hafter : ids.after ≤ UInt64.size - c.size := after_le hbelow
    rw [c.length_toLists]
    omega
  refine ⟨?_, isNumbering_assignFrom hnodup hroom⟩
  rw [hrows, List.length_append] at hroom
  unfold assign
  rw [hrows, assignFrom_append (by omega)]

/-- A row with a NaN and a 0 of either sign is the same one in both batches, and new rows are numbered on
from the row that is already known. -/
theorem assign_of_stack_signedZeros :
    let ids : RowIds Float := [([5, 5], 7)]
    let a : Matrix Float := ⟨2, #[#v[0 / 0, 0], #v[5, 5]], .byRow⟩
    let b : Matrix Float := ⟨2, #[#v[0 / 0, -0], #v[1, 2]], .byColumn⟩
    let c : Matrix Float := ⟨2, #[#v[0 / 0, 0], #v[5, 5], #v[0 / 0, -0], #v[1, 2]], .byRow⟩
    a.stack? b = some c ∧ (ids.assign a).1 = [8, 7] ∧ ((ids.assign a).2.assign b).1 = [8, 9] ∧
      (ids.assign c).1 = [8, 7, 8, 9] ∧ IsNumbering ids c.toLists (ids.assign c) := by
  intro ids a b c
  have hc : a.stack? b = some c := by simp [a, b, c, Matrix.stack?]
  have hfirst : (ids.assign a).1 = [8, 7] := by decide +kernel
  have hsecond : ((ids.assign a).2.assign b).1 = [8, 9] := by decide +kernel
  have hnodup : (ids.map Prod.snd).Nodup := by decide
  obtain ⟨heq, hnumbering⟩ := assign_of_stack hc hnodup (by decide) (by decide)
  refine ⟨hc, hfirst, hsecond, ?_, hnumbering⟩
  rw [heq, hfirst, hsecond]
  rfl

end InfoFlow.RowIds
