import InfoFlow.Belief.Dataset
import InfoFlow.Proofs.Distribution.Samplers
import InfoFlow.Proofs.Matrix
import InfoFlow.Proofs.Program.Except
import InfoFlow.Proofs.Random.Always
import InfoFlow.Scalar.Double

namespace InfoFlow

variable {α σ : Type} [Scalar α] [RandomWords σ]

namespace Sampler

/-- The stream that a number of draws leaves. -/
def after (s : Sampler α) (stream : σ) : ℕ → σ
  | 0 => stream
  | n + 1 => (s.draw.run.run (s.after stream n)).2

/-- The draw that comes after a number of others. -/
def drawAt (s : Sampler α) (stream : σ) (n : ℕ) : Except Breakdown α :=
  (s.draw.run.run (s.after stream n)).1

end Sampler

namespace Dataset

section Columns

variable {v : Variable α} {s : Sampler α} {records n : ℕ} {stream next : σ} {xs : List α}

theorem drawMany_succ (s : Sampler α) (n : ℕ) :
    (drawMany s (n + 1) : Drawing σ _) = do
      let xs ← drawMany s n
      let x ← s.draw
      return xs ++ [x] := by
  unfold drawMany
  rw [List.range_succ, List.mapM_append]
  simp only [List.mapM_cons, List.mapM_nil, bind_assoc, pure_bind]

/-- Several draws come to an answer if each of them does. -/
theorem drawMany_eq_ok_iff : (drawMany s n).run.run stream = (.ok xs, next) ↔
    xs.map .ok = (List.range n).map (s.drawAt stream) ∧ next = s.after stream n := by
  induction n generalizing xs next with
  | zero =>
    rw [List.range_zero, List.map_nil, List.map_eq_nil_iff]
    constructor
    · rintro ⟨⟩
      exact ⟨rfl, rfl⟩
    · rintro ⟨rfl, rfl⟩
      rfl
  | succ n ih =>
    rw [drawMany_succ, List.range_succ, List.map_append, List.map_singleton,
      Random.run_drawing_bind_eq_ok_iff]
    simp only [Random.run_drawing_bind_eq_ok_iff, ih]
    constructor
    · rintro ⟨ys, _, ⟨hys, rfl⟩, x, _, hx, ⟨⟩⟩
      refine ⟨?_, ?_⟩
      · rw [List.map_append, hys, List.map_singleton, Sampler.drawAt, hx]
      · rw [Sampler.after, hx]
    · rintro ⟨hxs, rfl⟩
      obtain ⟨ys, lasts, rfl, hys, hlast⟩ := List.map_eq_append_iff.mp hxs
      obtain ⟨x, rfl, hx⟩ := List.map_eq_singleton_iff.mp hlast
      exact ⟨ys, _, ⟨hys, rfl⟩, x, _, Prod.ext hx.symm rfl, rfl⟩

omit [RandomWords σ] in
/-- A slice with the width of a record as its stride takes one number from every record. -/
theorem strided_blocks (f : ℕ → α) {e width : ℕ} (he : e < width) (records : ℕ) :
    strided ((List.range (records * width)).map f).toArray e width =
      (List.range records).map fun r => f (r * width + e) := by
  have hcount : (records * width - e + width - 1) / width = records := by
    have hblock : records = 0 ∨ width ≤ records * width :=
      records.eq_zero_or_pos.imp_right (Nat.le_mul_of_pos_left width)
    apply Nat.div_eq_of_lt_le
    · rcases hblock with rfl | hle <;> omega
    · rw [Nat.add_one_mul]
      omega
  unfold strided
  rw [List.size_toArray, List.length_map, List.length_range, hcount]
  refine List.map_congr_left fun r hr => ?_
  rw [Nat.add_comm e]
  simp [Matrix.flatIndex_lt (List.mem_range.mp hr) he]

/-- The columns of a variable that some numbers make up, record by record. -/
def columnsFrom (v : Variable α) (numbers : ℕ → α) (records : ℕ) : Columns α :=
  (List.range v.width).map fun e => (if 1 < v.width then s!"{v.name}[{e}]" else v.name, v.isDiscrete,
    (List.range records).map fun r => numbers (r * v.width + e))

theorem drawColumns_eq_ok {own : Columns α}
    (h : (drawColumns v s records).run.run stream = (.ok own, next)) :
    ∃ numbers : ℕ → α, (∀ i < records * v.width, s.drawAt stream i = .ok (numbers i)) ∧
      own = columnsFrom v numbers records ∧ next = s.after stream (records * v.width) := by
  obtain ⟨xs, _, hxs, h⟩ := Random.run_drawing_bind_eq_ok_iff.mp h
  obtain ⟨hdraws, rfl⟩ := drawMany_eq_ok_iff.mp hxs
  cases h
  have hlength : xs.length = records * v.width := by simpa using congrArg List.length hdraws
  obtain ⟨numbers, rfl⟩ : ∃ numbers, xs = (List.range (records * v.width)).map numbers :=
    ⟨fun i => xs.getD i 0, List.ext_getElem (by simp [hlength]) fun i hi _ => by simp [hi]⟩
  refine ⟨numbers, fun i hi => ?_, ?_, rfl⟩
  · simpa [hi, eq_comm] using congrArg (·[i]?) hdraws
  · refine List.ext_getElem (by simp [columnNames, columnsFrom]) fun e he _ => ?_
    have hlt : e < v.width := by simpa [columnNames] using he
    simp [columnNames, columnsFrom, strided_blocks _ hlt]

end Columns

section Variables

variable {v : Variable α} {s : Sampler α} {records : ℕ} {declared before after : List (Variable α)}
  {columns : Columns α} {stream : σ}

/-- How many elements some variables have together. -/
def elementCount : List (Variable α) → ℕ
  | [] => 0
  | v :: vs => v.width + elementCount vs

/-- The stream that some variables leave to the next one. Each of them takes one block of draws, which has
its records times its width. -/
inductive Leaves (records : ℕ) : List (Variable α) → σ → σ → Prop
  | nil {stream : σ} : Leaves records [] stream stream
  | cons {v : Variable α} {vs : List (Variable α)} {s : Sampler α} {stream next : σ} :
      samplerOf v = .ok s → Leaves records vs (s.after stream (records * v.width)) next →
      Leaves records (v :: vs) stream next

/-- The first of some variables is drawn, and then the others. -/
theorem drawAll_cons_eq_ok_iff {vs : List (Variable α)} :
    ((drawAll records (v :: vs)).run stream).1 = .ok columns ↔
      ∃ s own next rest, samplerOf v = .ok s ∧
        (drawColumns v s records).run.run stream = (.ok own, next) ∧
        ((drawAll records vs).run next).1 = .ok rest ∧ columns = own ++ rest := by
  rw [drawAll]
  cases samplerOf v with
  | error failure => exact iff_of_false nofun fun ⟨_, _, _, _, h, _⟩ => nomatch h
  | ok s =>
    dsimp only
    rw [Random.run_bind_eq]
    rcases hown : (drawColumns v s records).run.run stream with ⟨b | own, next⟩
    · refine iff_of_false nofun ?_
      rintro ⟨_, _, _, _, ⟨⟩, hown', _⟩
      exact nomatch hown.symm.trans hown'
    · dsimp only
      rw [Random.run_bind_eq]
      constructor
      · intro h
        cases hrest : ((drawAll records vs).run next).1 with
        | error failure =>
          rw [hrest] at h
          cases h
        | ok rest =>
          rw [hrest] at h
          cases h
          exact ⟨s, own, next, rest, rfl, hown, hrest, rfl⟩
      · rintro ⟨_, _, _, rest, ⟨⟩, hown', hrest, rfl⟩
        cases hown.symm.trans hown'
        rw [hrest]
        rfl

theorem drawAll_append_eq_ok
    (h : ((drawAll records (before ++ after)).run stream).1 = .ok columns) :
    ∃ front back next, Leaves records before stream next ∧
      ((drawAll records before).run stream).1 = .ok front ∧
      ((drawAll records after).run next).1 = .ok back ∧ columns = front ++ back := by
  induction before generalizing stream columns with
  | nil => exact ⟨[], columns, stream, .nil, rfl, h, rfl⟩
  | cons v before ih =>
    obtain ⟨s, own, _, rest, hs, hown, hrest, rfl⟩ := drawAll_cons_eq_ok_iff.mp h
    obtain ⟨front, back, next, hleaves, hfront, hback, rfl⟩ := ih hrest
    obtain ⟨_, _, _, rfl⟩ := drawColumns_eq_ok hown
    refine ⟨own ++ front, back, next, .cons hs hleaves, ?_, hback, (List.append_assoc _ _ _).symm⟩
    exact drawAll_cons_eq_ok_iff.mpr ⟨s, own, _, front, hs, hown, hfront, rfl⟩

/-- There is one column for each element, with one number for each record. -/
theorem shape_of_drawAll (h : ((drawAll records declared).run stream).1 = .ok columns) :
    columns.length = elementCount declared ∧ ∀ column ∈ columns, column.2.2.length = records := by
  induction declared generalizing stream columns with
  | nil =>
    cases h
    exact ⟨rfl, by simp⟩
  | cons v vs ih =>
    obtain ⟨s, own, _, rest, _, hown, hrest, rfl⟩ := drawAll_cons_eq_ok_iff.mp h
    obtain ⟨numbers, _, rfl, _⟩ := drawColumns_eq_ok hown
    obtain ⟨hlength, hrecords⟩ := ih hrest
    constructor
    · simp [columnsFrom, elementCount, hlength]
    · intro column hcolumn
      rcases List.mem_append.mp hcolumn with hown | hother
      · obtain ⟨e, _, rfl⟩ := List.mem_map.mp hown
        rw [List.length_map, List.length_range]
      · exact hrecords column hother

end Variables

section Records

variable {records : ℕ} {columns front back : Columns α}

/-- Row `r` has entry `r` of every column. -/
theorem toLists_ofColumns (records : ℕ) (columns : Columns α) :
    (ofColumns records columns).records.toLists =
      (List.range records).map fun r => columns.map fun column => column.2.2.toArray.getD r 0 := by
  unfold ofColumns
  dsimp only
  rw [Matrix.toLists_ofLists]
  · simp [Function.comp_def]
  · intro row hrow
    obtain ⟨r, _, rfl⟩ := List.mem_map.mp hrow
    simp

theorem column?_ofColumns {j : ℕ} {name : String} {isDiscrete : Bool} {numbers : List α}
    (hcolumn : columns[j]? = some (name, isDiscrete, numbers)) (hlength : numbers.length = records) :
    (ofColumns records columns).records.column? j = some numbers := by
  have hj : j < columns.length := (List.getElem?_eq_some_iff.mp hcolumn).1
  have hentry (r : ℕ) : (columns.map fun column => column.2.2.toArray.getD r 0)[j]? =
      some (numbers.toArray.getD r 0) := by
    rw [List.getElem?_map, hcolumn]
    rfl
  rw [Matrix.column?_eq hj, toLists_ofColumns, List.filterMap_map]
  simp only [Function.comp_def, hentry, List.filterMap_eq_map']
  refine congrArg some (List.ext_getElem (by simp [hlength]) fun r _ hr => ?_)
  simp [hr]

/-- The columns in front make up the front of every record. -/
theorem toLists_ofColumns_append (records : ℕ) (front back : Columns α) :
    (ofColumns records front).records.toLists =
      (ofColumns records (front ++ back)).records.toLists.map (List.take front.length) := by
  rw [toLists_ofColumns, toLists_ofColumns, List.map_map]
  refine List.map_congr_left fun r _ => ?_
  simp only [Function.comp_apply]
  rw [List.map_append, List.take_left' (List.length_map _)]

end Records

section Draws

variable {declared : List (Variable α)} {records : ℕ} {seed : UInt64} {d : Dataset α}

/-- A dataset has one column for each element of each variable, in order. The number of a record in the column
of element `e` of a variable is the draw of its sampler at the place of the record in the block of the
variable. The variables in front make up the columns in front. -/
structure IsDrawn (d : Dataset α) (declared : List (Variable α)) (records : ℕ) (seed : UInt64) :
    Prop where
  size : d.records.size = records
  width : d.records.width = elementCount declared
  length_columns : d.columns.length = elementCount declared
  length_isDiscrete : d.isDiscrete.length = elementCount declared
  element {before after : List (Variable α)} {v : Variable α} {e : ℕ} :
    declared = before ++ v :: after → e < v.width →
      d.columns[elementCount before + e]? =
        some (if 1 < v.width then s!"{v.name}[{e}]" else v.name) ∧
      d.isDiscrete[elementCount before + e]? = some v.isDiscrete ∧
      ∃ s stream, ∃ numbers : ℕ → α, samplerOf v = .ok s ∧
        Leaves records before (Xoshiro.ofSeed seed) stream ∧
        (∀ r < records, s.drawAt stream (r * v.width + e) = .ok (numbers r)) ∧
        d.records.column? (elementCount before + e) = some ((List.range records).map numbers)
  front {before after : List (Variable α)} :
    declared = before ++ after → ∃ part, draw before records seed = .ok part ∧
      part.columns = d.columns.take (elementCount before) ∧
      part.isDiscrete = d.isDiscrete.take (elementCount before) ∧
      part.records.width = elementCount before ∧
      part.records.toLists = d.records.toLists.map (List.take (elementCount before))

theorem draw_eq_ok_iff : draw declared records seed = .ok d ↔
    ∃ columns, ((drawAll records declared).run (Xoshiro.ofSeed seed)).1 = .ok columns ∧
      ofColumns records columns = d := by
  unfold draw
  cases ((drawAll records declared).run (Xoshiro.ofSeed seed)).1 <;> simp [Except.map]

/-- A dataset is drawn if each variable has a sampler whose draws come to an answer. -/
theorem exists_draw (h : ∀ v ∈ declared, ∃ s, samplerOf v = .ok s ∧
    ∀ stream : Xoshiro, ∃ x, (s.draw.run.run stream).1 = .ok x) :
    ∃ d, draw declared records seed = .ok d := by
  have hall (stream : Xoshiro) :
      ∃ columns, ((drawAll records declared).run stream).1 = .ok columns := by
    induction declared generalizing stream with
    | nil => exact ⟨[], rfl⟩
    | cons v vs ih =>
      obtain ⟨s, hs, hdraws⟩ := h v List.mem_cons_self
      choose value hvalue using fun i => hdraws (s.after stream i)
      have hmany : (drawMany s (records * v.width)).run.run stream =
          (.ok ((List.range (records * v.width)).map value), s.after stream (records * v.width)) :=
        drawMany_eq_ok_iff.mpr
          ⟨(List.map_map ..).trans (List.map_congr_left fun i _ => (hvalue i).symm), rfl⟩
      obtain ⟨own, hown⟩ : ∃ own, (drawColumns v s records).run.run stream =
          (.ok own, s.after stream (records * v.width)) :=
        ⟨_, Random.run_drawing_bind_eq_ok_iff.mpr ⟨_, _, hmany, rfl⟩⟩
      obtain ⟨rest, hrest⟩ := ih (fun w hw => h w (List.mem_cons_of_mem v hw))
        (s.after stream (records * v.width))
      exact ⟨_, drawAll_cons_eq_ok_iff.mpr ⟨s, own, _, rest, hs, hown, hrest, rfl⟩⟩
  obtain ⟨columns, hcolumns⟩ := hall (Xoshiro.ofSeed seed)
  exact ⟨_, draw_eq_ok_iff.mpr ⟨columns, hcolumns, rfl⟩⟩

/-- A dataset that is drawn has the columns of its variables, whose numbers are the draws of one stream,
block by block. -/
theorem isDrawn_of_draw (h : draw declared records seed = .ok d) :
    d.IsDrawn declared records seed := by
  obtain ⟨columns, hcolumns, rfl⟩ := draw_eq_ok_iff.mp h
  have hlength := (shape_of_drawAll hcolumns).1
  constructor
  case size =>
    rw [← Matrix.length_toLists, toLists_ofColumns, List.length_map, List.length_range]
  case width => exact hlength
  case length_columns => exact (List.length_map _).trans hlength
  case length_isDiscrete => exact (List.length_map _).trans hlength
  case element =>
    rintro before after v e rfl he
    obtain ⟨front, back, stream, hleaves, hfront, hback, rfl⟩ := drawAll_append_eq_ok hcolumns
    obtain ⟨s, own, _, rest, hs, hdrawn, -, rfl⟩ := drawAll_cons_eq_ok_iff.mp hback
    obtain ⟨numbers, hnumbers, rfl, -⟩ := drawColumns_eq_ok hdrawn
    have hcolumn : (front ++ (columnsFrom v numbers records ++ rest))[elementCount before + e]? =
        some (if 1 < v.width then s!"{v.name}[{e}]" else v.name, v.isDiscrete,
          (List.range records).map fun r => numbers (r * v.width + e)) := by
      have hown : e < (columnsFrom v numbers records).length := by simpa [columnsFrom] using he
      rw [← (shape_of_drawAll hfront).1, List.getElem?_append_right (Nat.le_add_right _ _),
        Nat.add_sub_cancel_left, List.getElem?_append_left hown]
      simp [columnsFrom, he]
    refine ⟨?_, ?_, s, stream, fun r => numbers (r * v.width + e), hs, hleaves,
      fun r hr => hnumbers _ (Matrix.flatIndex_lt hr he), column?_ofColumns hcolumn (by simp)⟩
    · exact (List.getElem?_map ..).trans (congrArg (Option.map _) hcolumn)
    · exact (List.getElem?_map ..).trans (congrArg (Option.map _) hcolumn)
  case front =>
    rintro before after rfl
    obtain ⟨front, back, -, -, hfront, -, rfl⟩ := drawAll_append_eq_ok hcolumns
    have hcount := (shape_of_drawAll hfront).1
    refine ⟨_, draw_eq_ok_iff.mpr ⟨front, hfront, rfl⟩, ?_, ?_, hcount, ?_⟩
    · rw [← hcount]
      simp [ofColumns]
    · rw [← hcount]
      simp [ofColumns]
    · rw [← hcount]
      exact toLists_ofColumns_append records front back

/-- A whole number and two normal ones for each of two records. -/
theorem wholeAndNormals_isDrawn :
    let whole : Variable Float := ⟨"a", .discreteUniform, [.value 0, .value 9], .scalar, false⟩
    let normals : Variable Float := ⟨"b", .normal, [.value 5, .value 1], .vector 2, false⟩
    ∃ d, draw [whole, normals] 2 3 = .ok d ∧ d.IsDrawn [whole, normals] 2 3 ∧
      d.columns[2]? = some "b[1]" := by
  intro whole normals
  have hsamplers : ∀ v ∈ [whole, normals], ∃ s, samplerOf v = .ok s ∧
      ∀ stream : Xoshiro, ∃ x, (s.draw.run.run stream).1 = .ok x := by
    have hdirect : ∀ v ∈ [whole, normals], (samplerOf v).toOption.any Sampler.isDirect = true := by
      decide +kernel
    intro v hv
    obtain ⟨s, hs, hdraw⟩ := Except.exists_of_any_toOption (hdirect v hv)
    exact ⟨s, hs, Sampler.draw_of_isDirect hdraw⟩
  obtain ⟨d, hd⟩ : ∃ d, draw [whole, normals] 2 3 = .ok d := exists_draw hsamplers
  have hdrawn := isDrawn_of_draw hd
  have hwidth : 1 < normals.width := by decide
  obtain ⟨hname, -⟩ := hdrawn.element (List.singleton_append (x := whole)).symm hwidth
  exact ⟨d, hd, hdrawn, hname⟩

end Draws

end Dataset

end InfoFlow
