import InfoFlow.Matrix
import Mathlib.Data.List.Basic

namespace InfoFlow.Matrix

variable {α : Type} {m : Matrix α} {j : Nat}

theorem length_toLists (m : Matrix α) : m.toLists.length = m.size := by
  simp [toLists, size]

theorem length_of_mem_toLists {row : List α} (h : row ∈ m.toLists) : row.length = m.width := by
  obtain ⟨values, _, rfl⟩ := List.mem_map.mp h
  exact values.length_toList

/-- Rows of the right width are kept as they are. -/
theorem toLists_ofLists [Scalar α] {width : Nat} {rows : List (List α)}
    (h : ∀ row ∈ rows, row.length = width) : (ofLists width rows).toLists = rows := by
  have hrow (row : List α) (hrow : row ∈ rows) :
      (Vector.ofFn fun j : Fin width => row.getD j 0).toList = row := by
    obtain rfl := h row hrow
    exact List.ext_getElem (by simp) fun j _ _ => by simp
  unfold ofLists toLists
  rw [List.map_map]
  exact (List.map_congr_left hrow).trans (List.map_id' rows)

/-- A column has the number at its place in every row. -/
theorem column?_eq (h : j < m.width) : m.column? j = some (m.toLists.filterMap (·[j]?)) := by
  have hrow (row : Vector α m.width) : row.toList[j]? = some row[j] := by simp [h]
  unfold column? toLists
  rw [dif_pos h, List.filterMap_map]
  simp only [Function.comp_def, hrow, List.filterMap_eq_map']

theorem ofColumn?_eq (h : j < m.width) : ∃ column, m.ofColumn? j = some column ∧
    column.width = 1 ∧ column.toLists = (m.toLists.filterMap (·[j]?)).map ([·]) := by
  have hcolumn := column?_eq h
  unfold column? at hcolumn
  unfold ofColumn?
  rw [dif_pos h] at hcolumn ⊢
  refine ⟨_, rfl, rfl, ?_⟩
  rw [← Option.some.inj hcolumn]
  simp [toLists, Function.comp_def]

theorem column?_eq_none_iff : m.column? j = none ↔ m.width ≤ j := by
  unfold column?
  split <;> simp <;> omega

theorem ofColumn?_eq_none_iff : m.ofColumn? j = none ↔ m.width ≤ j := by
  unfold ofColumn?
  split <;> simp <;> omega

theorem stack?_eq {a b : Matrix α} (h : b.width = a.width) : ∃ c, a.stack? b = some c ∧
    c.width = a.width ∧ c.toLists = a.toLists ++ b.toLists := by
  have hcast (row : Vector α b.width) : (Vector.cast h row).toList = row.toList := rfl
  unfold stack?
  rw [dif_pos h]
  refine ⟨_, rfl, rfl, ?_⟩
  simp [toLists, Function.comp_def, hcast]

theorem toLists_of_stack? {a b c : Matrix α} (h : a.stack? b = some c) :
    c.toLists = a.toLists ++ b.toLists := by
  have hwidth : b.width = a.width := by
    unfold stack? at h
    split at h
    · assumption
    · cases h
  obtain ⟨c', hc', _, hrows⟩ := stack?_eq hwidth
  obtain rfl : c' = c := Option.some.inj (hc'.symm.trans h)
  exact hrows

/-- Matrices of one width are stacked in their order. -/
theorem stackAll?_eq {ms : List (Matrix α)} {width : Nat} (hne : ms ≠ [])
    (h : ∀ m ∈ ms, m.width = width) :
    ∃ c, stackAll? ms = some c ∧ c.width = width ∧ c.toLists = ms.flatMap toLists := by
  have hfold (rest : List (Matrix α)) (start : Matrix α) (hstart : start.width = width)
      (hrest : ∀ m ∈ rest, m.width = width) : ∃ c, rest.foldlM stack? start = some c ∧
        c.width = width ∧ c.toLists = start.toLists ++ rest.flatMap toLists := by
    induction rest generalizing start with
    | nil => exact ⟨start, rfl, hstart, by simp⟩
    | cons m rest ih =>
      obtain ⟨c, hc, hwidth, hrows⟩ := stack?_eq ((hrest m List.mem_cons_self).trans hstart.symm)
      obtain ⟨d, hd, hwidth', hrows'⟩ := ih c (hwidth.trans hstart) fun n hn =>
        hrest n (List.mem_cons_of_mem m hn)
      refine ⟨d, ?_, hwidth', ?_⟩
      · rw [List.foldlM_cons, hc]
        exact hd
      · rw [hrows', hrows, List.flatMap_cons, List.append_assoc]
  cases ms with
  | nil => exact absurd rfl hne
  | cons m rest =>
    exact hfold rest { m with layout := .byRow } (h m List.mem_cons_self) fun n hn =>
      h n (List.mem_cons_of_mem m hn)

theorem width_of_stack? {a b c : Matrix α} (h : a.stack? b = some c) : c.width = a.width := by
  unfold stack? at h
  split at h
  · cases h
    rfl
  · cases h

theorem width_of_foldlM_stack? (start : Matrix α) {rest : List (Matrix α)} {c : Matrix α}
    (h : rest.foldlM stack? start = some c) : c.width = start.width := by
  induction rest generalizing start with
  | nil =>
    cases h
    rfl
  | cons m rest ih =>
    obtain ⟨next, hnext, hrest⟩ := Option.bind_eq_some_iff.mp h
    exact (ih next hrest).trans (width_of_stack? hnext)

theorem width_of_stackAll? {ms : List (Matrix α)} {c : Matrix α} (h : stackAll? ms = some c) :
    ∃ m ∈ ms, c.width = m.width := by
  cases ms with
  | nil => cases h
  | cons m rest => exact ⟨m, List.mem_cons_self, width_of_foldlM_stack? { m with layout := .byRow } h⟩

theorem size_select {positions : List Nat} (h : ∀ i ∈ positions, i < m.size) :
    (m.select positions).size = positions.length := by
  unfold select size
  rw [List.size_toArray, List.filterMap_length_eq_length]
  intro i hi
  rw [Array.getElem?_eq_getElem (h i hi)]
  rfl

/-- Every row of a matrix is picked from the row of another one, in the same way for all rows. -/
def IsPartOf (part whole : Matrix α) : Prop :=
  ∃ pick : List α → List α, (∀ row, pick row ⊆ row) ∧ part.toLists = whole.toLists.map pick

section Parts

variable {a b c d : Matrix α} {ms ns : List (Matrix α)}

theorem IsPartOf.refl (m : Matrix α) : m.IsPartOf m :=
  ⟨id, fun row => List.Subset.refl row, (List.map_id _).symm⟩

theorem IsPartOf.trans (hab : a.IsPartOf b) (hbc : b.IsPartOf c) : a.IsPartOf c := by
  obtain ⟨f, hf, hrows⟩ := hab
  obtain ⟨g, hg, hrows'⟩ := hbc
  refine ⟨f ∘ g, fun row => List.Subset.trans (hf (g row)) (hg row), ?_⟩
  rw [hrows, hrows', List.map_map]

theorem IsPartOf.size_eq (h : a.IsPartOf b) : a.size = b.size := by
  obtain ⟨pick, _, hrows⟩ := h
  rw [← length_toLists, ← length_toLists, hrows, List.length_map]

theorem toLists_beside? (h : a.beside? b = some c) :
    a.size = b.size ∧ c.toLists = List.zipWith (· ++ ·) a.toLists b.toLists := by
  unfold beside? at h
  split at h
  · rename_i hsize
    cases h
    refine ⟨hsize, ?_⟩
    simp [toLists, List.map_zipWith, List.zipWith_map]
  · cases h

theorem IsPartOf.of_beside? (h : a.beside? b = some c) : a.IsPartOf c ∧ b.IsPartOf c := by
  obtain ⟨hsize, hrows⟩ := toLists_beside? h
  rw [← length_toLists, ← length_toLists] at hsize
  have hwidth (i : Nat) (hi : i < a.toLists.length) : a.toLists[i].length = a.width :=
    length_of_mem_toLists (List.getElem_mem hi)
  constructor
  · refine ⟨List.take a.width, fun row => List.take_subset _ _, ?_⟩
    rw [hrows]
    refine List.ext_getElem (by simp [hsize]) fun i hi _ => ?_
    simp [List.take_left' (hwidth i hi)]
  · refine ⟨List.drop a.width, fun row => List.drop_subset _ _, ?_⟩
    rw [hrows]
    refine List.ext_getElem (by simp [hsize]) fun i hi _ => ?_
    simp [List.drop_left' (hwidth i (hsize ▸ hi))]

/-- What is put together from parts of a matrix is part of it. -/
theorem IsPartOf.beside? (ha : a.IsPartOf d) (hb : b.IsPartOf d) (h : a.beside? b = some c) :
    c.IsPartOf d := by
  obtain ⟨f, hf, ha⟩ := ha
  obtain ⟨g, hg, hb⟩ := hb
  refine ⟨fun row => f row ++ g row, fun row => List.append_subset.mpr ⟨hf row, hg row⟩, ?_⟩
  rw [(toLists_beside? h).2, ha, hb, List.zipWith_map, List.zipWith_self]

theorem IsPartOf.of_besideAll? (h : besideAll? ms = some c) (hm : m ∈ ms) : m.IsPartOf c := by
  have hfold (rest : List (Matrix α)) (start : Matrix α)
      (h : rest.foldlM Matrix.beside? start = some c) :
      start.IsPartOf c ∧ ∀ m ∈ rest, m.IsPartOf c := by
    induction rest generalizing start with
    | nil =>
      cases h
      exact ⟨.refl _, by simp⟩
    | cons n rest ih =>
      obtain ⟨next, hnext, hrest⟩ := Option.bind_eq_some_iff.mp h
      obtain ⟨hstart, hn⟩ := IsPartOf.of_beside? hnext
      obtain ⟨hpart, hparts⟩ := ih next hrest
      refine ⟨hstart.trans hpart, fun m hm => ?_⟩
      rcases List.mem_cons.mp hm with rfl | hm
      · exact hn.trans hpart
      · exact hparts m hm
  cases ms with
  | nil => cases hm
  | cons first rest =>
    obtain ⟨hfirst, hrest⟩ := hfold rest _ h
    rcases List.mem_cons.mp hm with rfl | hm
    · exact hfirst
    · exact hrest m hm

theorem IsPartOf.besideAll? (hms : ∀ m ∈ ms, m.IsPartOf d) (h : besideAll? ms = some c) :
    c.IsPartOf d := by
  have hfold (rest : List (Matrix α)) (start : Matrix α) (hstart : start.IsPartOf d)
      (hrest : ∀ m ∈ rest, m.IsPartOf d) (h : rest.foldlM Matrix.beside? start = some c) :
      c.IsPartOf d := by
    induction rest generalizing start with
    | nil =>
      cases h
      exact hstart
    | cons n rest ih =>
      obtain ⟨next, hnext, hrest'⟩ := Option.bind_eq_some_iff.mp h
      exact ih next (hstart.beside? (hrest n List.mem_cons_self) hnext)
        (fun m hm => hrest m (List.mem_cons_of_mem n hm)) hrest'
  cases ms with
  | nil => cases h
  | cons first rest =>
    exact hfold rest { first with layout := .byColumn } (hms first List.mem_cons_self)
      (fun m hm => hms m (List.mem_cons_of_mem first hm)) h

/-- Some of the matrices side by side are part of all of them side by side. -/
theorem IsPartOf.of_subset (hsubset : ms ⊆ ns) (hms : Matrix.besideAll? ms = some c)
    (hns : Matrix.besideAll? ns = some d) : c.IsPartOf d :=
  .besideAll? (fun _ hm => .of_besideAll? hns (hsubset hm)) hms

end Parts

end InfoFlow.Matrix
