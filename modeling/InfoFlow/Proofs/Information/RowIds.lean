import InfoFlow.Information.RowIds
import InfoFlow.Proofs.Matrix
import InfoFlow.Proofs.Program.Except
import InfoFlow.Proofs.Scalar.Exact
import InfoFlow.Proofs.Scalar.Order
import Mathlib.Data.Set.Function

namespace InfoFlow

section Rows

variable {α : Type} [Scalar α]

/-- Rows are the same entry by entry. -/
theorem isSameRow_iff_forall₂ {x y : List α} :
    isSameRow x y = true ↔ x.Forall₂ (fun a b => Scalar.totalEq a b = true) y := by
  unfold isSameRow
  rw [List.forall₂_iff_zip, Bool.and_eq_true, beq_iff_eq, List.all_eq_true, Prod.forall]

theorem isSameRow_refl (x : List α) : isSameRow x x = true :=
  isSameRow_iff_forall₂.mpr (List.forall₂_same.mpr fun a _ => Scalar.totalEq_refl a)

variable [LawfulOrder α]

theorem isSameRow_comm (x y : List α) : isSameRow x y = isSameRow y x := by
  have hsymm {x y : List α} (h : isSameRow x y = true) : isSameRow y x = true := by
    rw [isSameRow_iff_forall₂] at h ⊢
    exact (h.imp fun a b hab => (Scalar.totalEq_comm b a).trans hab).flip
  exact Bool.eq_iff_iff.mpr ⟨hsymm, hsymm⟩

theorem isSameRow_trans {x y z : List α} (hxy : isSameRow x y = true)
    (hyz : isSameRow y z = true) : isSameRow x z = true := by
  rw [isSameRow_iff_forall₂] at hxy hyz ⊢
  induction hxy generalizing z with
  | nil => exact hyz
  | cons hab _ ih =>
    obtain _ | ⟨hbc, hrest⟩ := hyz
    exact .cons (Scalar.totalEq_trans hab hbc) (ih hrest)

end Rows

theorem isSameRow_iff {x y : List Exact} : isSameRow x y = true ↔ x = y := by
  simp only [isSameRow_iff_forall₂, Exact.totalEq_iff, List.forall₂_eq_eq_eq]

namespace RowIds

section Numbers

variable {α : Type} [Scalar α] {ids known : RowIds α} {fresh : ℕ} {id : UInt64}
  {row other : List α}

theorem length_assignFrom (ids : RowIds α) (fresh : UInt64) (rows : List (List α)) :
    (ids.assignFrom fresh rows).1.length = rows.length := by
  induction rows generalizing ids fresh with
  | nil => rfl
  | cons row rows ih =>
    rw [assignFrom]
    split
    · simp [ih]
    · simp [ih]

theorem idOf?_eq_some (h : ids.idOf? row = some id) :
    ∃ found, (found, id) ∈ ids ∧ isSameRow found row = true := by
  obtain ⟨⟨found, _⟩, hfound, rfl⟩ := Option.map_eq_some_iff.mp h
  exact ⟨found, List.mem_of_find?_eq_some hfound, by simpa using List.find?_some hfound⟩

theorem idOf?_append (h : ids.idOf? row = some id) (added : RowIds α) :
    idOf? (ids ++ added) row = some id := by
  obtain ⟨entry, hfound, rfl⟩ := Option.map_eq_some_iff.mp h
  unfold idOf?
  rw [List.find?_append, hfound]
  rfl

/-- A row that is new to the known numbers gets the added one if it is the added row. -/
theorem idOf?_append_singleton (h : ids.idOf? row = none) :
    idOf? (ids ++ [(other, id)]) row = if isSameRow other row then some id else none := by
  unfold idOf? at h ⊢
  rw [List.find?_append, Option.map_eq_none_iff.mp h, Option.none_or, List.find?_singleton,
    apply_ite (Option.map _)]
  rfl

theorem idOf?_append_self (h : ids.idOf? row = none) :
    idOf? (ids ++ [(row, id)]) row = some id := by
  rw [idOf?_append_singleton h, if_pos (isSameRow_refl row)]

/-- All numbers are different, and below the fresh one. -/
structure Below (ids : RowIds α) (fresh : ℕ) : Prop where
  nodup : (ids.map Prod.snd).Nodup
  lt : ∀ entry ∈ ids, entry.2.toNat < fresh

omit [Scalar α] in
theorem Below.append (h : ids.Below fresh) (hroom : fresh < UInt64.size) :
    Below (ids ++ [(row, UInt64.ofNat fresh)]) (fresh + 1) := by
  have hfresh : (UInt64.ofNat fresh).toNat = fresh := UInt64.toNat_ofNat_of_lt' hroom
  constructor
  · have hnew : UInt64.ofNat fresh ∉ ids.map Prod.snd := by
      intro hmem
      obtain ⟨entry, hentry, heq⟩ := List.mem_map.mp hmem
      have hlt := h.lt entry hentry
      rw [heq, hfresh] at hlt
      exact lt_irrefl fresh hlt
    rw [List.map_append, List.map_singleton]
    exact List.nodup_append'.mpr ⟨h.nodup, List.nodup_singleton _, by simpa using hnew⟩
  · intro entry hentry
    rcases List.mem_append.mp hentry with hold | hnew
    · exact Nat.lt_succ_of_lt (h.lt entry hold)
    · rw [List.mem_singleton.mp hnew, hfresh]
      exact Nat.lt_succ_self fresh

/-- The numbers of some rows are those they have among the known ones, which hold all earlier ones. -/
structure Assigned (ids known : RowIds α) (rows : List (List α)) (numbers : List UInt64) : Prop where
  idOf? : rows.Forall₂ (fun row number => known.idOf? row = some number) numbers
  keeps : ∀ row id, ids.idOf? row = some id → known.idOf? row = some id
  nodup : (known.map Prod.snd).Nodup

theorem assignFrom_assigned (rows : List (List α)) (h : ids.Below fresh)
    (hroom : fresh + rows.length ≤ UInt64.size) :
    Assigned ids (ids.assignFrom (.ofNat fresh) rows).2 rows
      (ids.assignFrom (.ofNat fresh) rows).1 := by
  induction rows generalizing ids fresh with
  | nil => exact ⟨.nil, fun _ _ => id, h.nodup⟩
  | cons row rows ih =>
    rw [List.length_cons] at hroom
    rw [assignFrom]
    cases hknown : ids.idOf? row with
    -- Numbers are only ever added, so that later rows leave the number of this one alone.
    | some id =>
      have hrest := ih h (by omega)
      exact ⟨.cons (hrest.keeps row id hknown) hrest.idOf?, hrest.keeps, hrest.nodup⟩
    | none =>
      have hbelow : Below (ids ++ [(row, .ofNat fresh)]) (fresh + 1) := h.append (by omega)
      have hrest := ih hbelow (by omega)
      rw [UInt64.ofNat_add] at hrest
      exact ⟨.cons (hrest.keeps row _ (idOf?_append_self hknown)) hrest.idOf?,
        fun other id hother => hrest.keeps other id (idOf?_append hother _), hrest.nodup⟩

variable [LawfulOrder α]

/-- The same row has the same number. -/
theorem idOf?_congr (h : isSameRow row other = true) : ids.idOf? row = ids.idOf? other := by
  have hsame (found : List α) : isSameRow found row = isSameRow found other :=
    Bool.eq_iff_iff.mpr ⟨fun hrow => isSameRow_trans hrow h,
      fun hother => isSameRow_trans hother ((isSameRow_comm other row).trans h)⟩
  unfold idOf?
  simp only [hsame]

/-- A number stands for one row only. -/
theorem isSameRow_of_idOf? (hnodup : (known.map Prod.snd).Nodup) (hrow : known.idOf? row = some id)
    (hother : known.idOf? other = some id) : isSameRow row other = true := by
  obtain ⟨found, hmem, hsame⟩ := idOf?_eq_some hrow
  obtain ⟨found', hmem', hsame'⟩ := idOf?_eq_some hother
  have heq : found = found' :=
    congrArg Prod.fst (List.inj_on_of_nodup_map hnodup hmem hmem' rfl)
  rw [isSameRow_comm, heq] at hsame
  exact isSameRow_trans hsame hsame'

end Numbers

variable {ids known : RowIds Exact} {fresh id : UInt64} {row other : List Exact}

/-- Rows that are all the same get the number that is known for them. -/
theorem assignFrom_of_known {rows : List (List Exact)} (h : ∀ row ∈ rows, ids.idOf? row = some id) :
    (ids.assignFrom fresh rows).1 = rows.map fun _ => id := by
  induction rows with
  | nil => rfl
  | cons row rows ih =>
    rw [assignFrom, h row List.mem_cons_self, List.map_cons]
    exact congrArg (id :: ·) (ih fun row hrow => h row (List.mem_cons_of_mem _ hrow))

theorem Assigned.injective {rows : List (List Exact)} {numbers : List UInt64}
    (h : Assigned ids known rows numbers) (hrow : known.idOf? row = some id)
    (hother : known.idOf? other = some id) : row = other :=
  isSameRow_iff.mp (isSameRow_of_idOf? h.nodup hrow hother)

end RowIds

/-- The numbers of the rows of a matrix depend on the rows alone and tell them apart. -/
theorem Matrix.exists_rowIds (m : Matrix Exact) (hsize : m.size < UInt64.size) :
    ∃ f : List Exact → UInt64,
      m.rowIds = m.toLists.map f ∧ Set.InjOn f {row | row ∈ m.toLists} := by
  have hempty : RowIds.Below ([] : RowIds Exact) 0 := ⟨List.nodup_nil, by simp⟩
  have hassigned := RowIds.assignFrom_assigned m.toLists hempty
    (by simpa [Matrix.length_toLists] using hsize.le)
  have hzero : UInt64.ofNat 0 = 0 := rfl
  rw [hzero] at hassigned
  set known := (RowIds.assignFrom [] 0 m.toLists).2
  have hknown (row : List Exact) (hrow : row ∈ m.toLists) :
      ∃ number, known.idOf? row = some number := by
    obtain ⟨number, _, hnumber⟩ := hassigned.idOf?.exists_of_mem_left hrow
    exact ⟨number, hnumber⟩
  refine ⟨fun row => (known.idOf? row).getD 0, ?_, ?_⟩
  · rw [Eq.comm, ← List.forall₂_eq_eq_eq, List.forall₂_map_left_iff]
    exact hassigned.idOf?.imp fun row number hnumber => by rw [hnumber]; rfl
  · intro row hrow other hother hsame
    obtain ⟨number, hnumber⟩ := hknown row hrow
    obtain ⟨number', hnumber'⟩ := hknown other hother
    simp only [hnumber, hnumber', Option.getD_some] at hsame
    exact hassigned.injective hnumber (hsame ▸ hnumber')

/-- Rows that are all the same have the same number. -/
theorem Matrix.eq_of_mem_rowIds {m : Matrix Exact}
    (h : ∀ row ∈ m.toLists, ∀ other ∈ m.toLists, row = other) {x y : UInt64} (hx : x ∈ m.rowIds)
    (hy : y ∈ m.rowIds) : x = y := by
  have hall : ∃ rows : List (List Exact), m.rowIds = rows.map fun _ => 0 := by
    change ∃ rows : List (List Exact), (RowIds.assignFrom [] 0 m.toLists).1 = _
    cases hrows : m.toLists with
    | nil => exact ⟨[], rfl⟩
    | cons first rest =>
      rw [hrows] at h
      have hknown (row : List Exact) (hrow : row ∈ rest) :
          RowIds.idOf? [(first, 0)] row = some 0 := by
        obtain rfl := h first List.mem_cons_self row (List.mem_cons_of_mem first hrow)
        have hnew : RowIds.idOf? ([] : RowIds Exact) first = none := rfl
        exact RowIds.idOf?_append_self hnew
      refine ⟨first :: rest, ?_⟩
      rw [RowIds.assignFrom, List.map_cons]
      exact congrArg (0 :: ·) (RowIds.assignFrom_of_known hknown)
  obtain ⟨rows, hids⟩ := hall
  rw [hids] at hx hy
  obtain ⟨_, _, rfl⟩ := List.mem_map.mp hx
  obtain ⟨_, _, rfl⟩ := List.mem_map.mp hy
  rfl

end InfoFlow
