import InfoFlow.Decimal.Reader

namespace InfoFlow

/-- A JSON value. A number is kept as it is spelled, since whether it is written as an integer
matters to some readers and its value depends on the arithmetic. -/
inductive Document where
  | null
  | bool (b : Bool)
  | number (spelling : String)
  | text (s : String)
  | list (items : List Document)
  | record (fields : List (String × Document))
  deriving Inhabited

namespace Document

/-- The value of a field; the last one counts. -/
def field? (d : Document) (name : String) : Option Document :=
  match d with
  | record fields => fields.reverse.lookup name
  | _ => none

/-- The value of a field; null if it is missing. -/
def get (d : Document) (name : String) : Document := (d.field? name).getD null

/-- The items of a list; none of anything else. -/
def items : Document → List Document
  | list items => items
  | _ => []

/-- An item of a list; null if it is missing. -/
def item (d : Document) (i : Nat) : Document := d.items.getD i null

def text? : Document → Option String
  | text s => some s
  | _ => none

def bool? : Document → Option Bool
  | bool b => some b
  | _ => none

/-- A number without point and exponent. A negative zero counts as a number with a fraction. -/
def integer? : Document → Option Int
  | number spelling =>
    let (isNegative, digits) := Decimal.readSign spelling.toList
    match Decimal.readDigits? digits with
    | some n => if isNegative then if n = 0 then none else some (-n) else some n
    | none => none
  | _ => none

def natural? (d : Document) : Option Nat := do
  let i ← d.integer?
  if 0 ≤ i then some i.toNat else none

variable {α : Type} [Scalar α]

/-- A number, in the arithmetic at hand. -/
def number? : Document → Option α
  | number spelling => Decimal.read? spelling
  | _ => none

/-- A number, or a text that stands for a number JSON cannot spell. -/
def scalar? : Document → Option α
  | text "nan" => some Scalar.nan
  | text "inf" => some Scalar.infinity
  | text "-inf" => some (-Scalar.infinity)
  | d => d.number?

end Document

end InfoFlow
