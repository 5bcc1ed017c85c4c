import InfoFlow.Decimal.Shortest
import InfoFlow.Scalar.Basic

namespace InfoFlow.Decimal

/-- The number that a run of ASCII digits writes. -/
def valueOfDigits (cs : List Char) : Nat :=
  cs.foldl (fun n c => 10 * n + (c.toNat - '0'.toNat)) 0

/-- A sign, if there is one, and whether it is a minus. -/
def readSign : List Char → Bool × List Char
  | '-' :: cs => (true, cs)
  | '+' :: cs => (false, cs)
  | cs => (false, cs)

/-- A whole text of at least one ASCII digit. -/
def readDigits? (cs : List Char) : Option Nat :=
  if !cs.isEmpty && cs.all Char.isDigit then some (valueOfDigits cs) else none

/-- The exponent part: nothing, or a mark, an optional sign and digits to the end. -/
def readExponent? : List Char → Option Int
  | [] => some 0
  | c :: cs =>
    if c == 'e' || c == 'E' then
      let (isNegative, digits) := readSign cs
      (readDigits? digits).map fun n => if isNegative then -(n : Int) else n
    else none

/-- Digits with an optional point, and an exponent. -/
def readDecimal? (cs : List Char) : Option Decimal :=
  let whole := cs.takeWhile Char.isDigit
  let rest := cs.dropWhile Char.isDigit
  let (fraction, rest) := match rest with
    | '.' :: rest => (rest.takeWhile Char.isDigit, rest.dropWhile Char.isDigit)
    | rest => ([], rest)
  if whole.isEmpty && fraction.isEmpty then none
  else (readExponent? rest).map fun e =>
    ⟨valueOfDigits (whole ++ fraction), e - fraction.length⟩

variable {α : Type} [Scalar α]

/-- The number nearest to a decimal. -/
def toScalar (d : Decimal) : α :=
  Scalar.ofScientific d.digits (d.exponent < 0) d.exponent.natAbs

/-- The magnitude that a text without a sign writes. -/
def readMagnitude? (cs : List Char) : Option α :=
  let lower := cs.map Char.toLower
  if lower == "inf".toList || lower == "infinity".toList then some Scalar.infinity
  else if lower == "nan".toList then some Scalar.nan
  else (readDecimal? cs).map toScalar

/-- Reads a number that takes up the whole text: an optional sign and then `inf`, `infinity` or
`nan` in any case, or ASCII digits with at most one point and at least one digit, and an optional
exponent. Neither blanks nor digit separators are accepted. -/
def read? (s : String) : Option α :=
  let (isNegative, cs) := readSign s.toList
  (readMagnitude? cs).map fun x => if isNegative then -x else x

end InfoFlow.Decimal
