import InfoFlow.Csv.Field
import InfoFlow.Decimal.Reader
import InfoFlow.Matrix

namespace InfoFlow

structure SampleTable (α : Type) where
  secrets : List α
  outputs : Matrix α

/-- Why samples are not loaded. Lines are records, counted from 1. -/
inductive DataError where
  | missingFile
  | unreadableFile (reason : String)
  | malformed (e : Csv.Malformed)
  | parse (line : Nat) (value : String)
  /-- The number of outputs differs from that of the first record, or is 0 there. -/
  | columns (line expected found : Nat)
  | empty
  deriving Repr, DecidableEq

def DataError.message : DataError → String
  | missingFile => "No such file or directory (os error 2)"
  | unreadableFile reason => reason
  | malformed e => e.message
  | parse line value => s!"line {line}: cannot parse `{value}` as a number"
  | columns line expected found => s!"line {line}: expected {expected} columns, found {found}"
  | empty => "file contains no samples"

namespace SampleTable

variable {α : Type} [Scalar α]

/-- Checks the number of outputs in a record, given that in the records before it. -/
def checkColumns (line : Nat) (expected : Option Nat) (found : Nat) : Except DataError Unit :=
  match expected with
  | some expected =>
    if found = expected then .ok () else .error (.columns line expected found)
  | none => if found = 0 then .error (.columns line 1 found) else .ok ()

/-- The number in a field. -/
def readNumber (line : Nat) (field : String) : Except DataError α :=
  match Decimal.read? field with
  | some x => .ok x
  | none => .error (.parse line field)

/-- The numbers of the records read so far, the outputs of all records one after the other. -/
structure Collected (α : Type) where
  secrets : Array α
  outputs : Array α
  /-- The number of outputs in each record; none before the first record. -/
  width : Option Nat

/-- Adds the numbers of a record. One without fields has no outputs, and is refused for that. -/
def Collected.add (c : Collected α) (line : Nat) (record : Except Csv.Malformed (List String)) :
    Except DataError (Collected α) := do
  let fields ← record.mapError .malformed
  let found := fields.length - 1
  checkColumns line c.width found
  let secret ← readNumber line (fields.headD "")
  let outputs : List α ← fields.tail.mapM (readNumber line)
  return ⟨c.secrets.push secret, c.outputs ++ outputs, some found⟩

/-- The numbers of some records, which stand in the lines from 1 on. -/
def collect (records : List (Except Csv.Malformed (List String))) :
    Except DataError (Collected α) :=
  (records.zipIdx 1).foldlM (fun c (record, line) => c.add line record) ⟨#[], #[], none⟩

/-- The table of what has been read, with a row of outputs for each secret. -/
def Collected.table (c : Collected α) : Except DataError (SampleTable α) :=
  match c.width with
  | none => .error .empty
  | some width =>
    match Matrix.ofFlat? c.secrets.size width c.outputs with
    | some outputs => .ok ⟨c.secrets.toList, outputs⟩
    | none => .error .empty

/-- The table that some records make up. -/
def ofRecords (records : List (Except Csv.Malformed (List String))) :
    Except DataError (SampleTable α) := collect records >>= Collected.table

/-- The table in a file of comma-separated values. -/
def ofBytes (bytes : List UInt8) : Except DataError (SampleTable α) := ofRecords (Csv.records bytes)

end SampleTable

end InfoFlow
