import InfoFlow.Proofs.Matrix
import InfoFlow.Proofs.Program.Except
import InfoFlow.SampleTable
import InfoFlow.Scalar.Double
import Mathlib.Data.List.Flatten
import Mathlib.Data.List.OfFn

namespace InfoFlow

section Flat

variable {α : Type} {width : Nat} {rows : List (List α)}

/-- Rows of one length fill a matrix. -/
theorem Matrix.ofFlat?_flatten (hrows : ∀ row ∈ rows, row.length = width) :
    ∃ m, ofFlat? rows.length width rows.flatten.toArray = some m ∧ m.width = width ∧
      m.toLists = rows := by
  have hlengths : rows.map List.length = List.replicate rows.length width :=
    List.map_eq_replicate_iff.mpr hrows
  have hlength : rows.flatten.length = rows.length * width := by
    rw [List.length_flatten, hlengths, List.sum_replicate_nat]
  have hentries : (List.ofFn fun k : Fin (rows.length * width) => rows.flatten[k.val]) = rows.flatten :=
    List.ext_getElem (by rw [List.length_ofFn, hlength]) fun k _ _ => List.getElem_ofFn _
  unfold ofFlat?
  rw [dif_pos (List.size_toArray.trans hlength)]
  refine ⟨_, rfl, rfl, List.eq_iff_flatten_eq.mpr ⟨?_, ?_⟩⟩
  · simp only [toLists, Array.toList_ofFn, List.map_ofFn, Function.comp_def, Vector.toList_ofFn]
    exact (List.ofFn_mul _).symm.trans hentries
  · simp only [toLists, Array.toList_ofFn, List.map_ofFn, Function.comp_def, Vector.length_toList]
    rw [hlengths, List.ofFn_const]

end Flat

namespace SampleTable

/-- The fields of a record; none of one that is not text. -/
def fieldsOf : Except Csv.Malformed (List String) → List String
  | .ok fields => fields
  | .error _ => []

/-- The number of fields in the first record. -/
def fieldCount (records : List (Except Csv.Malformed (List String))) : Nat :=
  ((records.head?.map fieldsOf).getD []).length

variable {α : Type} [Scalar α]

/-- A record of some number of fields, two at least, which are all numbers. -/
structure IsSample (α : Type) [Scalar α] (count : Nat) (record : Except Csv.Malformed (List String)) :
    Prop where
  isText : record = .ok (fieldsOf record)
  length_eq : (fieldsOf record).length = count
  two_le : 2 ≤ count
  isNumber : ∀ field ∈ fieldsOf record, (Decimal.read? field : Option α).isSome

/-- What a record is refused for if the first one has `count` fields: for its number of outputs, or else
for its first field that is not a number. -/
def refusal? (α : Type) [Scalar α] (count line : Nat) :
    Except Csv.Malformed (List String) → Option DataError
  | .error m => some (.malformed m)
  | .ok fields =>
    if fields.length ≠ count then some (.columns line (count - 1) (fields.length - 1))
    else if fields.length < 2 then some (.columns line 1 (fields.length - 1))
    else (fields.find? fun field => (Decimal.read? field : Option α).isNone).map (.parse line)

/-- The first fields are the secrets, and the other ones the rows of outputs. -/
structure Holds (t : SampleTable α) (records : List (Except Csv.Malformed (List String))) : Prop where
  length_eq : ∀ record ∈ records, (fieldsOf record).length = t.outputs.width + 1
  secrets : records.Forall₂ (fun record x => ∃ field fields, record = .ok (field :: fields) ∧
    Decimal.read? field = some x) t.secrets
  outputs : records.Forall₂ (fun record row => ∃ field fields, record = .ok (field :: fields) ∧
    fields.Forall₂ (fun field x => Decimal.read? field = some x) row) t.outputs.toLists

section Fields

variable {line : Nat} {fields : List String}

/-- The numbers among some fields. -/
def numbersOf (α : Type) [Scalar α] (fields : List String) : List α := fields.filterMap Decimal.read?

theorem numbersOf_cons {field : String} {x : α} (hx : Decimal.read? field = some x) (fields : List String) :
    numbersOf α (field :: fields) = x :: numbersOf α fields :=
  List.filterMap_cons_some hx

theorem forall₂_numbersOf (h : ∀ field ∈ fields, (Decimal.read? field : Option α).isSome) :
    fields.Forall₂ (fun field x => Decimal.read? field = some x) (numbersOf α fields) := by
  induction fields with
  | nil => exact .nil
  | cons field fields ih =>
    obtain ⟨x, hx⟩ := Option.isSome_iff_exists.mp (h field List.mem_cons_self)
    rw [numbersOf_cons hx]
    exact .cons hx (ih (List.forall_mem_of_forall_mem_cons h))

/-- Fields are read up to the first one that is not a number. -/
theorem mapM_readNumber (line : Nat) (fields : List String) :
    fields.mapM (readNumber line) =
      match fields.find? fun field => (Decimal.read? field : Option α).isNone with
      | some field => .error (.parse line field)
      | none => .ok (numbersOf α fields) := by
  induction fields with
  | nil => rfl
  | cons field fields ih =>
    rw [List.mapM_cons, ih, List.find?_cons]
    unfold readNumber
    cases hread : (Decimal.read? field : Option α) with
    | none => rfl
    | some x =>
      rw [numbersOf_cons hread]
      cases hfault : fields.find? fun field => (Decimal.read? field : Option α).isNone <;> rfl

end Fields

section Records

variable {count line : Nat} {record : Except Csv.Malformed (List String)} {fields : List String}

theorem refusal?_eq_none_iff : refusal? α count line record = none ↔ IsSample α count record := by
  unfold refusal?
  cases record with
  | error m => exact iff_of_false nofun fun h => nomatch h.isText
  | ok fields =>
    dsimp only
    split_ifs with hcount hfew
    · exact iff_of_false nofun fun h => hcount h.length_eq
    · refine iff_of_false nofun fun h => ?_
      have htwo : 2 ≤ fields.length := h.two_le.trans_eq h.length_eq.symm
      omega
    · rw [Option.map_eq_none_iff, List.find?_eq_none]
      constructor
      · intro h
        refine ⟨rfl, not_not.mp hcount, by omega, fun field hfield => ?_⟩
        simpa [Option.isSome_iff_ne_none] using h field hfield
      · intro h field hfield
        simpa [Option.isSome_iff_ne_none] using h.isNumber field hfield

/-- The numbers of a sample are a secret and its outputs. -/
theorem IsSample.exists_numbersOf (h : IsSample α count record) :
    ∃ field fields x xs, record = .ok (field :: fields) ∧ Decimal.read? field = some x ∧
      fields.Forall₂ (fun field x => Decimal.read? field = some x) xs ∧
      numbersOf α (fieldsOf record) = x :: xs ∧ xs.length = count - 1 := by
  obtain ⟨htext, hlength, htwo, hnumber⟩ := h
  have hread := forall₂_numbersOf hnumber
  generalize fieldsOf record = fields at htext hlength hread
  generalize numbersOf α fields = row at hread
  cases hread with
  | nil =>
    rw [List.length_nil] at hlength
    omega
  | cons hx hxs =>
    refine ⟨_, _, _, _, htext, hx, hxs, rfl, ?_⟩
    rw [← hxs.length_eq, ← hlength, List.length_cons, Nat.add_sub_cancel]

/-- The first record says how many fields there have to be; it needs two itself. -/
theorem checkColumns_eq {width : Option Nat}
    (hwidth : width = some (count - 1) ∧ 2 ≤ count ∨ width = none ∧ fields.length = count) :
    checkColumns line width (fields.length - 1) =
      if fields.length ≠ count then .error (.columns line (count - 1) (fields.length - 1))
      else if fields.length < 2 then .error (.columns line 1 (fields.length - 1))
      else .ok () := by
  unfold checkColumns
  rcases hwidth with ⟨rfl, htwo⟩ | ⟨rfl, rfl⟩
  · dsimp only
    by_cases hcount : fields.length = count
    · have hmany : ¬ count < 2 := Nat.not_lt.mpr htwo
      rw [hcount, if_pos rfl, if_neg (not_not.mpr rfl), if_neg hmany]
    · have hother : fields.length - 1 ≠ count - 1 := by omega
      rw [if_neg hother, if_pos hcount]
  · have hnone : fields.length - 1 = 0 ↔ fields.length < 2 := by omega
    simp only [hnone, ne_eq, not_true_eq_false, if_false]

/-- A record is added unless it is refused. -/
theorem add_eq (line : Nat) (record : Except Csv.Malformed (List String)) {c : Collected α}
    (hwidth : c.width = some (count - 1) ∧ 2 ≤ count ∨
      c.width = none ∧ (fieldsOf record).length = count) :
    c.add line record = match refusal? α count line record with
      | some e => .error e
      | none => .ok ⟨c.secrets.push ((numbersOf α (fieldsOf record)).headD 0),
          c.outputs ++ (numbersOf α (fieldsOf record)).tail, some (count - 1)⟩ := by
  unfold Collected.add refusal?
  cases record with
  | error m => rfl
  | ok fields =>
    dsimp only [Except.mapError, fieldsOf] at hwidth ⊢
    rw [Except.ok_bind, checkColumns_eq hwidth]
    split_ifs with hcount hfew
    · rfl
    · rfl
    · cases fields with
      | nil => exact absurd Nat.zero_lt_two hfew
      | cons field fields =>
        rw [List.headD_cons, List.tail_cons, mapM_readNumber, List.find?_cons]
        unfold readNumber
        cases hread : (Decimal.read? field : Option α) with
        | none => rfl
        | some x =>
          have hfound : (field :: fields).length - 1 = count - 1 := by omega
          rw [numbersOf_cons hread, hfound]
          cases hfault : fields.find? fun field => (Decimal.read? field : Option α).isNone <;> rfl

end Records

section Runs

variable {count : Nat} {records : List (Except Csv.Malformed (List String))}

/-- The refusal of the first record that is refused, if the first of them stands in some line. -/
def firstRefusal? (α : Type) [Scalar α] (count line : Nat)
    (records : List (Except Csv.Malformed (List String))) : Option DataError :=
  (records.zipIdx line).findSome? fun (record, line) => refusal? α count line record

/-- The numbers of some records, one row for each. -/
def rowsOf (α : Type) [Scalar α] (records : List (Except Csv.Malformed (List String))) : List (List α) :=
  records.map fun record => numbersOf α (fieldsOf record)

/-- What has been collected of some rows of numbers. -/
def collected (count : Nat) (rows : List (List α)) : Collected α :=
  ⟨(rows.map (·.headD 0)).toArray, (rows.flatMap List.tail).toArray, some (count - 1)⟩

theorem collected_append (count : Nat) (rows : List (List α)) (row : List α) :
    collected count (rows ++ [row]) = ⟨(collected count rows).secrets.push (row.headD 0),
      (collected count rows).outputs ++ row.tail, some (count - 1)⟩ := by
  simp [collected]

theorem firstRefusal?_cons (count line : Nat) (record : Except Csv.Malformed (List String)) :
    firstRefusal? α count line (record :: records) =
      (refusal? α count line record).or (firstRefusal? α count (line + 1) records) := by
  unfold firstRefusal?
  rw [List.zipIdx_cons, List.findSome?_cons]
  dsimp only
  cases refusal? α count line record <;> rfl

/-- Once the first record has said how many fields there are, records are added up to the first one that
is refused. -/
theorem foldlM_add (htwo : 2 ≤ count) (records : List (Except Csv.Malformed (List String))) (line : Nat)
    (rows : List (List α)) :
    (records.zipIdx line).foldlM (fun c (record, line) => c.add line record) (collected count rows) =
      match firstRefusal? α count line records with
      | some e => .error e
      | none => .ok (collected count (rows ++ rowsOf α records)) := by
  induction records generalizing line rows with
  | nil =>
    have hnone : rows ++ rowsOf α [] = rows := List.append_nil rows
    rw [hnone]
    rfl
  | cons record records ih =>
    have hadd := add_eq line record (c := collected count rows) (.inl ⟨rfl, htwo⟩)
    rw [List.zipIdx_cons, List.foldlM_cons, firstRefusal?_cons]
    dsimp only
    rw [hadd]
    cases refusal? α count line record with
    | some e => rfl
    | none =>
      rw [Option.none_or, ← collected_append]
      have hrows : rows ++ rowsOf α (record :: records) =
          rows ++ [numbersOf α (fieldsOf record)] ++ rowsOf α records := by simp [rowsOf]
      rw [hrows]
      exact ih (line + 1) _

/-- The numbers of all records are collected, unless one is refused. -/
theorem collect_eq (hne : records ≠ []) :
    collect records = match firstRefusal? α (fieldCount records) 1 records with
      | some e => .error e
      | none => .ok (collected (fieldCount records) (rowsOf α records)) := by
  cases records with
  | nil => exact absurd rfl hne
  | cons first rest =>
    generalize hcount : fieldCount (first :: rest) = count
    have hadd := add_eq (α := α) 1 first (c := ⟨#[], #[], none⟩) (.inr ⟨rfl, hcount⟩)
    unfold collect
    rw [List.zipIdx_cons, List.foldlM_cons, firstRefusal?_cons]
    dsimp only
    rw [hadd]
    cases hfirst : refusal? α count 1 first with
    | some e => rfl
    | none =>
      have htwo := (refusal?_eq_none_iff.mp hfirst).two_le
      have hrest := foldlM_add htwo rest 2 ([] ++ [numbersOf α (fieldsOf first)])
      rw [collected_append] at hrest
      rw [Option.none_or]
      exact hrest

/-- Rows of one length make up a table. -/
theorem exists_table {rows : List (List α)} (hrows : ∀ row ∈ rows, row.length = count) :
    ∃ t, (collected count rows).table = .ok t ∧ t.secrets = rows.map (·.headD 0) ∧
      t.outputs.width = count - 1 ∧ t.outputs.toLists = rows.map List.tail := by
  have htails : ∀ row ∈ rows.map List.tail, row.length = count - 1 := by
    intro row hrow
    obtain ⟨whole, hwhole, rfl⟩ := List.mem_map.mp hrow
    rw [List.length_tail, hrows whole hwhole]
  obtain ⟨m, hm, hmwidth, hlists⟩ := Matrix.ofFlat?_flatten htails
  have hsize : (collected count rows).secrets.size = (rows.map List.tail).length := by simp [collected]
  have houtputs : (collected count rows).outputs = (rows.map List.tail).flatten.toArray := rfl
  have hwidth : (collected count rows).width = some (count - 1) := rfl
  refine ⟨⟨rows.map (·.headD 0), m⟩, ?_, rfl, hmwidth, hlists⟩
  unfold Collected.table
  rw [hwidth]
  dsimp only
  rw [hsize, houtputs, hm]
  rfl

theorem firstRefusal?_eq_none_iff {line : Nat} :
    firstRefusal? α count line records = none ↔ ∀ record ∈ records, IsSample α count record := by
  induction records generalizing line with
  | nil => exact iff_of_true rfl (by simp)
  | cons record records ih =>
    rw [firstRefusal?_cons, Option.or_eq_none_iff, refusal?_eq_none_iff, ih, List.forall_mem_cons]

/-- The record that is reported is the first one that is no sample. -/
theorem firstRefusal?_eq_some_iff {line : Nat} {e : DataError} :
    firstRefusal? α count line records = some e ↔ ∃ before record after,
      records = before ++ record :: after ∧ (∀ earlier ∈ before, IsSample α count earlier) ∧
      refusal? α count (line + before.length) record = some e := by
  induction records generalizing line with
  | nil => exact iff_of_false nofun (by simp)
  | cons record records ih =>
    rw [firstRefusal?_cons, Option.or_eq_some_iff, refusal?_eq_none_iff, ih]
    constructor
    · rintro (he | ⟨hsample, before, refused, after, rfl, hbefore, he⟩)
      · exact ⟨[], record, records, rfl, by simp, he⟩
      · have hsamples := List.forall_mem_cons.mpr ⟨hsample, hbefore⟩
        refine ⟨record :: before, refused, after, rfl, hsamples, ?_⟩
        rwa [List.length_cons, ← Nat.add_assoc, Nat.add_right_comm]
    · rintro ⟨before, refused, after, hrecords, hbefore, he⟩
      cases before with
      | nil =>
        cases hrecords
        exact .inl he
      | cons earlier before =>
        cases hrecords
        obtain ⟨hsample, hbefore⟩ := List.forall_mem_cons.mp hbefore
        rw [List.length_cons, ← Nat.add_assoc, Nat.add_right_comm] at he
        exact .inr ⟨hsample, before, refused, after, rfl, hbefore, he⟩

/-- Samples make up a table. -/
theorem exists_table_of_isSample (h : ∀ record ∈ records, IsSample α count record) :
    ∃ t, (collected count (rowsOf α records)).table = .ok t ∧ t.Holds records := by
  have hrows : ∀ row ∈ rowsOf α records, row.length = count := by
    intro row hrow
    obtain ⟨record, hrecord, rfl⟩ := List.mem_map.mp hrow
    obtain ⟨_, _, _, _, _, _, _, hnumbers, hlength⟩ := (h record hrecord).exists_numbersOf
    have htwo := (h record hrecord).two_le
    rw [hnumbers, List.length_cons]
    omega
  obtain ⟨t, htable, hsecrets, hwidth, houtputs⟩ := exists_table hrows
  refine ⟨t, htable, ?_, ?_, ?_⟩
  · intro record hrecord
    have htwo := (h record hrecord).two_le
    rw [(h record hrecord).length_eq, hwidth]
    omega
  · rw [hsecrets, rowsOf, List.map_map, List.forall₂_map_right_iff, List.forall₂_same]
    intro record hrecord
    obtain ⟨field, fields, x, xs, htext, hx, -, hnumbers, -⟩ := (h record hrecord).exists_numbersOf
    refine ⟨field, fields, htext, ?_⟩
    rw [Function.comp_apply, hnumbers]
    exact hx
  · rw [houtputs, rowsOf, List.map_map, List.forall₂_map_right_iff, List.forall₂_same]
    intro record hrecord
    obtain ⟨field, fields, x, xs, htext, -, hxs, hnumbers, -⟩ := (h record hrecord).exists_numbersOf
    refine ⟨field, fields, htext, ?_⟩
    rw [Function.comp_apply, hnumbers]
    exact hxs

theorem ofRecords_eq (hne : records ≠ []) :
    ofRecords records = match firstRefusal? α (fieldCount records) 1 records with
      | some e => .error e
      | none => (collected (fieldCount records) (rowsOf α records)).table := by
  unfold ofRecords
  rw [collect_eq hne]
  cases firstRefusal? α (fieldCount records) 1 records <;> rfl

/-- Samples that agree on the number of their fields have as many as the first one. -/
theorem isSample_fieldCount (h : ∀ record ∈ records, IsSample α count record) :
    ∀ record ∈ records, IsSample α (fieldCount records) record := by
  cases records with
  | nil => simp
  | cons first rest =>
    have hcount : fieldCount (first :: rest) = count := (h first List.mem_cons_self).length_eq
    rwa [hcount]

/-- Records make up a table if there are any and all are samples with the same number of fields. Otherwise
they are refused for the first one that is no sample with as many fields as the first record. -/
theorem ofRecords_decides (records : List (Except Csv.Malformed (List String))) :
    ((∃ t : SampleTable α, ofRecords records = .ok t) ↔
      records ≠ [] ∧ ∃ count, ∀ record ∈ records, IsSample α count record) ∧
    (∀ t : SampleTable α, ofRecords records = .ok t → t.Holds records) ∧
    ∀ e, ofRecords (α := α) records = .error e ↔ records = [] ∧ e = .empty ∨
      ∃ before record after, records = before ++ record :: after ∧
        (∀ earlier ∈ before, IsSample α (fieldCount records) earlier) ∧
        refusal? α (fieldCount records) (1 + before.length) record = some e := by
  by_cases hne : records = []
  · subst hne
    have hempty : ofRecords (α := α) [] = .error .empty := rfl
    simp [hempty, eq_comm]
  · simp only [← firstRefusal?_eq_some_iff, ofRecords_eq hne, hne, false_and, false_or, ne_eq,
      not_false_eq_true, true_and]
    cases hfirst : firstRefusal? α (fieldCount records) 1 records with
    | some e =>
      have hfault : ¬ ∃ count, ∀ record ∈ records, IsSample α count record := by
        rintro ⟨count, hsamples⟩
        rw [firstRefusal?_eq_none_iff.mpr (isSample_fieldCount hsamples)] at hfirst
        cases hfirst
      refine ⟨iff_of_false ?_ hfault, ?_, fun e' => ?_⟩
      · rintro ⟨t, ht⟩
        cases ht
      · intro t ht
        cases ht
      · rw [Except.error.injEq, Option.some_inj]
    | none =>
      have hsamples := firstRefusal?_eq_none_iff.mp hfirst
      obtain ⟨t, htable, hholds⟩ := exists_table_of_isSample hsamples
      dsimp only
      rw [htable]
      refine ⟨iff_of_true ⟨t, rfl⟩ ⟨_, hsamples⟩, ?_, fun e => iff_of_false ?_ ?_⟩
      · rintro _ ⟨⟩
        exact hholds
      · intro herror
        cases herror
      · intro herror
        cases herror

/-- Two samples of two outputs each. -/
def twoSamples : List (Except Csv.Malformed (List String)) :=
  [.ok ["0", "0.1", "2.43"], .ok ["1", "0.0", "1.22"]]

/-- A sample, a record with a text in it, and one that is too short. -/
def spoiltSamples : List (Except Csv.Malformed (List String)) :=
  [.ok ["0", "0.1"], .ok ["1", "x"], .ok ["2"]]

/-- The two samples are taken; the text is what is wrong first among the others, in the second record. -/
theorem ofRecords_samples :
    (∃ t : SampleTable Float, ofRecords twoSamples = .ok t ∧ t.Holds twoSamples) ∧
    ofRecords (α := Float) spoiltSamples = .error (.parse 2 "x") := by
  have hnumbers : ∀ record ∈ twoSamples, IsSample Float 3 record := by
    intro record hrecord
    simp only [twoSamples, List.mem_cons, List.not_mem_nil, or_false] at hrecord
    rcases hrecord with rfl | rfl <;> exact ⟨rfl, rfl, by decide, by decide +kernel⟩
  have hfirst : IsSample Float 2 (.ok ["0", "0.1"]) := ⟨rfl, rfl, le_rfl, by decide +kernel⟩
  have hrefused : refusal? Float 2 2 (.ok ["1", "x"]) = some (.parse 2 "x") := by decide +kernel
  constructor
  · obtain ⟨hok, hholds, -⟩ := ofRecords_decides (α := Float) twoSamples
    obtain ⟨t, ht⟩ := hok.mpr ⟨by simp [twoSamples], 3, hnumbers⟩
    exact ⟨t, ht, hholds t ht⟩
  · obtain ⟨-, -, herror⟩ := ofRecords_decides (α := Float) spoiltSamples
    have hbefore : ∀ earlier ∈ [.ok ["0", "0.1"]], IsSample Float 2 earlier :=
      fun earlier hearlier => List.mem_singleton.mp hearlier ▸ hfirst
    exact (herror _).mpr (.inr ⟨_, _, [.ok ["2"]], rfl, hbefore, hrefused⟩)

end Runs

end SampleTable

end InfoFlow
