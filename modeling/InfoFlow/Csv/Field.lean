import InfoFlow.Csv.Record
import InfoFlow.Text.Properties

namespace InfoFlow.Csv

/-- A record with a field that is not UTF-8. -/
structure Malformed where
  start : Position
  /-- The first field that is not text. -/
  field : Nat
  /-- Length of the text that the field starts with. -/
  validLength : Nat
  deriving Repr, DecidableEq

def Malformed.message (e : Malformed) : String :=
  s!"CSV parse error: record {e.start.record} (line {e.start.line}, field: {e.field}, " ++
    s!"byte: {e.start.byte}): invalid utf-8: invalid UTF-8 in field {e.field} " ++
    s!"near byte index {e.validLength}"

/-- The text that bytes spell. -/
def decodeText? (bytes : List UInt8) : Option String := String.fromUTF8? ⟨bytes.toArray⟩

/-- The length of the longest text at the front of some bytes. -/
def validLength (bytes : List UInt8) : Nat :=
  ((List.range (bytes.length + 1)).reverse.find? fun n => (decodeText? (bytes.take n)).isSome).getD 0

def isBlankByte (b : UInt8) : Bool := b == 32 || (9 ≤ b && b ≤ 13)

def trimBytes (bytes : List UInt8) : List UInt8 :=
  ((bytes.dropWhile isBlankByte).reverse.dropWhile isBlankByte).reverse

/-- The texts of fields, the first of which is field `i`. -/
def decodeFields (start : Position) : Nat → List (List UInt8) → Except Malformed (List String)
  | _, [] => .ok []
  | i, field :: rest =>
    match decodeText? field with
    | none => .error ⟨start, i, validLength field⟩
    | some text => (decodeFields start (i + 1) rest).map (text :: ·)

/-- The texts of a record. ASCII blanks go before a field is decoded, except in the first record; this
shows only in the lengths that faults report. -/
def RawRecord.texts (r : RawRecord) : Except Malformed (List String) :=
  let fields := if r.start.record = 0 then r.fields else r.fields.map trimBytes
  (decodeFields r.start 0 fields).map fun texts =>
    texts.map fun text => String.ofList (Text.trim text.toList)

/-- The records of a file, those that are not text as faults. -/
def records (bytes : List UInt8) : List (Except Malformed (List String)) :=
  (rawRecords bytes).map RawRecord.texts

end InfoFlow.Csv
