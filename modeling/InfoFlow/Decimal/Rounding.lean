import InfoFlow.Decimal.Reader
import InfoFlow.Scalar.Double

namespace InfoFlow.Decimal

/-- The integer nearest to a quotient, a half to the even one. -/
def roundedQuotient (num den : Nat) : Nat :=
  let q := num / den
  let twice := 2 * (num % den)
  if twice < den || (twice == den && q % 2 == 0) then q else q + 1

/-- The multiple of `10 ^ exponent` nearest to a value. -/
def ofBinary (b : Binary) (exponent : Int) : Decimal :=
  let (n, d) := Binary.powerOfTwo b.exponent
  let (up, down) := Binary.powerOfTen exponent
  ⟨roundedQuotient (b.mantissa * n * down) (d * up), exponent⟩

/-- A double with its magnitude replaced by a decimal that is found from it; infinities and NaN stay
as they are. -/
def replaceMagnitude (f : Binary → Decimal) (x : Float) : Float :=
  match Binary.ofFloat? x with
  | none => x
  | some b =>
    let y : Float := toScalar (f b)
    if Binary.isNegative x then -y else y

/-- The double rounded to some decimals. -/
def roundToPlaces (places : Nat) : Float → Float :=
  replaceMagnitude fun b => ofBinary b (-places)

/-- The double rounded to some significant digits. -/
def roundToDigits (digits : Nat) : Float → Float :=
  replaceMagnitude fun b =>
    if b.mantissa = 0 then ⟨0, 0⟩
    else
      let (n, d) := Binary.powerOfTwo b.exponent
      ofBinary b (Binary.decimalMagnitude (b.mantissa * n) d - digits)

end InfoFlow.Decimal
