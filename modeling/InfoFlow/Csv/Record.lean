/-!
Comma-separated values: files split into records, and records into fields.

A record ends at a line break, LF or CR, and lines without any byte are not records. A field that
starts with a quote goes on to the next quote that stands alone; two quotes in a row are one quote of
the field, and commas and line breaks between the quotes belong to it. What follows the closing quote
is a part of the field as well. A quote further into a field is a byte like any other. A file may start
with a byte-order mark, and the last record may end with the file.
-/

namespace InfoFlow.Csv

def comma : UInt8 := 44

def quote : UInt8 := 34

def lineFeed : UInt8 := 10

def isLineBreak (b : UInt8) : Bool := b == lineFeed || b == 13

/-- The byte-order mark of UTF-8. -/
def byteOrderMark : List UInt8 := [0xef, 0xbb, 0xbf]

/-- A place in a file: how many records and bytes come before it, and its line, counted from 1. -/
structure Position where
  record : Nat
  line : Nat
  byte : Nat
  deriving Repr, DecidableEq

/-- The fields of a record, and where reading it started: right after the line break that ended the
record before it. -/
structure RawRecord where
  start : Position
  fields : List (List UInt8)
  deriving Repr, DecidableEq

/-- What the byte read last has begun or ended. -/
inductive Place where
  | recordStart
  | fieldStart
  | unquoted
  | quoted
  /-- After a quote inside quotes. -/
  | afterQuote
  deriving Repr, DecidableEq

/-- A reader in the middle of a file. -/
structure Scan where
  place : Place
  /-- Where the current record started. -/
  start : Position
  line : Nat
  byte : Nat
  /-- Bytes of the current field, latest first. -/
  field : List UInt8
  /-- Complete fields of the current record, latest first. -/
  fields : List (List UInt8)

namespace Scan

/-- A reader of a file, after some bytes that belong to no record. -/
def atStart (skipped : Nat) : Scan := ⟨.recordStart, ⟨0, 1, 0⟩, 1, skipped, [], []⟩

/-- The record that ends here. -/
def record (s : Scan) : RawRecord := ⟨s.start, (s.field.reverse :: s.fields).reverse⟩

/-- Counts a byte. -/
def advance (s : Scan) (b : UInt8) : Scan :=
  { s with line := if b = lineFeed then s.line + 1 else s.line, byte := s.byte + 1 }

def push (s : Scan) (b : UInt8) (place : Place) : Scan :=
  { s with field := b :: s.field, place }

def endField (s : Scan) : Scan :=
  { s with fields := s.field.reverse :: s.fields, field := [], place := .fieldStart }

/-- Starts the next record. -/
def endRecord (s : Scan) : Scan :=
  { s with
    place := .recordStart
    start := ⟨s.start.record + 1, s.line, s.byte⟩
    field := []
    fields := [] }

/-- The effect of a byte that is not inside quotes, on a reader that has counted it: the reader after
it, and the record that ends with it. -/
def stepOutside (s : Scan) (b : UInt8) : Scan × Option RawRecord :=
  if isLineBreak b then
    if s.place = .recordStart then (s, none) else (s.endRecord, some s.record)
  else if b = comma then (s.endField, none)
  else if b = quote && s.place ≠ .unquoted then
    (if s.place = .afterQuote then s.push b .quoted else { s with place := .quoted }, none)
  else (s.push b .unquoted, none)

/-- Reads a byte: the reader after it, and the record that ends with it. -/
def step (s : Scan) (b : UInt8) : Scan × Option RawRecord :=
  let s := s.advance b
  if s.place = .quoted then
    (if b = quote then { s with place := .afterQuote } else s.push b .quoted, none)
  else s.stepOutside b

/-- The records from here to the end of the file. -/
def run (s : Scan) : List UInt8 → List RawRecord
  | [] => if s.place = .recordStart then [] else [s.record]
  | b :: rest =>
    match s.step b with
    | (s, some record) => record :: s.run rest
    | (s, none) => s.run rest

end Scan

/-- The records of a file. -/
def rawRecords (bytes : List UInt8) : List RawRecord :=
  if byteOrderMark.isPrefixOf bytes then
    (Scan.atStart byteOrderMark.length).run (bytes.drop byteOrderMark.length)
  else (Scan.atStart 0).run bytes

end InfoFlow.Csv
