import InfoFlow.Decimal.Rounding
import InfoFlow.Document.Basic
import InfoFlow.Scalar.Double

namespace InfoFlow.Document

/-- The escape of a character in a text. -/
def escape (c : Char) : List Char :=
  if c == '"' then ['\\', '"']
  else if c == '\\' then ['\\', '\\']
  else if c.toNat < 32 then
    let digit (n : Nat) : Char := Nat.digitChar (n % 16)
    ['\\', 'u', '0', '0', digit (c.toNat / 16), digit c.toNat]
  else [c]

def quoted (s : String) : String := "\"" ++ String.ofList (s.toList.flatMap escape) ++ "\""

mutual

/-- JSON text without blanks. -/
def render : Document → String
  | null => "null"
  | bool b => if b then "true" else "false"
  | number spelling => spelling
  | text s => quoted s
  | list items => "[" ++ ",".intercalate (renderItems items) ++ "]"
  | record fields => "\x7b" ++ ",".intercalate (renderFields fields) ++ "\x7d"

def renderItems : List Document → List String
  | [] => []
  | item :: items => item.render :: renderItems items

def renderFields : List (String × Document) → List String
  | [] => []
  | (name, value) :: fields => (quoted name ++ ":" ++ value.render) :: renderFields fields

end

/-- The spelling of a decimal: positional while its exponent is from -5 to 15, and with an exponent
beyond. -/
def spelling (d : Decimal) : String :=
  let digits := (toString d.digits).toList
  let exponent := d.exponent + digits.length - 1
  if -5 ≤ exponent && exponent < 16 then
    if 0 ≤ d.exponent then d.positional ++ ".0" else d.positional
  else
    let mantissa := match digits with
      | [c] => [c]
      | c :: cs => c :: '.' :: cs
      | [] => ['0']
    String.ofList mantissa ++ (if exponent < 0 then "e-" else "e+") ++ toString exponent.natAbs

/-- Whether a double is spelled as an integer. -/
def isIntegral (x : Float) : Bool := x.floor == x && x.abs < 1e15

/-- A double as it is; infinities and NaN, which JSON cannot spell, as texts. -/
def ofFloat (x : Float) : Document :=
  if isIntegral x then number (toString x.toInt64.toInt)
  else match Decimal.ofFloat? x with
    | some d => number ((if x < 0 then "-" else "") ++ spelling d)
    | none => text (if x.isNaN then "nan" else if x < 0 then "-inf" else "inf")

/-- A double after a rounding, which leaves integers as they are. -/
def ofRounded (round : Float → Float) (x : Float) : Document :=
  ofFloat (if isIntegral x then x else round x)

/-- A computed number: nine significant digits, and 0 for what is below `1e-12`. -/
def ofComputed : Float → Document := ofRounded fun x =>
  let y := Decimal.roundToDigits 9 x
  if y.abs < 1e-12 then 0 else y

/-- A measured quantity: nine decimals. -/
def ofMeasure : Float → Document := ofRounded (Decimal.roundToPlaces 9)

/-- A probability: twelve decimals. -/
def ofProbability : Float → Document := ofRounded (Decimal.roundToPlaces 12)

end InfoFlow.Document
