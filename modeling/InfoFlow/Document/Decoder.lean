import InfoFlow.Document.Basic

namespace InfoFlow

/-- Reads a value of some type, if the document is one. -/
abbrev Decoder (β : Type) := Document → Option β

namespace Decoder

variable {β : Type}

/-- A natural number of 64 bits. -/
def word : Decoder UInt64 := fun d => do
  let n ← d.natural?
  if n < UInt64.size then some n.toUInt64 else none

/-- A natural number of 32 bits. -/
def halfWord : Decoder UInt32 := fun d => do
  let n ← d.natural?
  if n < UInt32.size then some n.toUInt32 else none

/-- A number that a word can hold, as a number without bounds. -/
def count : Decoder Nat := fun d => (word d).map UInt64.toNat

def list (item : Decoder β) : Decoder (List β)
  | .list items => items.mapM item
  | _ => none

/-- A value or null. -/
def optional (item : Decoder β) : Decoder (Option β)
  | .null => some none
  | d => (item d).map some

/-- One of some names, alone or as the only field of a record, with null for its value. -/
def variant (names : List (String × β)) : Decoder β
  | .text name => names.lookup name
  | .record [(name, .null)] => names.lookup name
  | _ => none

/-- Whether a document can stand for a structure of some number of fields: as a record of them,
which may have others that are ignored, or as a list of their values in order. -/
def isStructure (fields : Nat) : Document → Bool
  | .record _ => true
  | .list items => items.length ≤ fields
  | _ => false

/-- The value of a field: by name in a record, by position in a list. -/
def field? (d : Document) (position : Nat) (name : String) : Option Document :=
  match d with
  | .list items => items[position]?
  | d => d.field? name

/-- A field that has to be there. -/
def required (d : Document) (position : Nat) (name : String) (item : Decoder β) : Option β := do
  item (← field? d position name)

/-- A field that may be missing, and has a default then. -/
def withDefault (d : Document) (position : Nat) (name : String) (item : Decoder β)
    (default : β) : Option β :=
  match field? d position name with
  | some value => item value
  | none => some default

end Decoder

end InfoFlow
