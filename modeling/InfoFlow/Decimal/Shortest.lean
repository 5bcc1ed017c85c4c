namespace InfoFlow

/-- The number `mantissa * 2 ^ exponent`. -/
structure Binary where
  mantissa : Nat
  exponent : Int
  deriving Repr, DecidableEq

/-- The number `digits * 10 ^ exponent`. -/
structure Decimal where
  digits : Nat
  exponent : Int
  deriving Repr, DecidableEq

namespace Binary

/-- The leading bit of the mantissa of a normal double. -/
def leadingBit : Nat := Nat.pow 2 52

/-- Magnitude of a finite double; `none` for infinities and NaN. -/
def ofFloat? (x : Float) : Option Binary :=
  let bits := x.toBits.toNat
  let biased : Nat := (bits >>> 52) % 2048
  let fraction : Nat := bits % leadingBit
  if biased = 2047 then none
  else if biased = 0 then some ⟨fraction, -1074⟩
  else some ⟨leadingBit + fraction, (biased : Int) - 1075⟩

/-- Whether the sign bit of a double is set. -/
def isNegative (x : Float) : Bool :=
  x.toBits >>> 63 == 1

/-- Whether the gap to the next smaller double is half the gap to the next larger one. -/
def isNarrowBelow (b : Binary) : Bool :=
  b.mantissa == leadingBit && b.exponent > -1074

/-- Numerator and denominator of `2 ^ e`. -/
def powerOfTwo (e : Int) : Nat × Nat :=
  (Nat.pow 2 e.toNat, Nat.pow 2 (-e).toNat)

/-- Numerator and denominator of `10 ^ e`. -/
def powerOfTen (e : Int) : Nat × Nat :=
  (Nat.pow 10 e.toNat, Nat.pow 10 (-e).toNat)

/-- The least `e` with `num / den < 10 ^ e`, looked for upwards from `e`. -/
def raiseMagnitude (num den : Nat) : Nat → Int → Int
  | 0, e => e
  | fuel + 1, e =>
    let (n, d) := powerOfTen e
    if num * d < n * den then e else raiseMagnitude num den fuel (e + 1)

/-- The least `e` with `num / den < 10 ^ e`, for a positive quotient. The logarithm of two only
picks the starting point, one below which is always too small. -/
def decimalMagnitude (num den : Nat) : Int :=
  let estimate := ((Nat.log2 num : Int) - Nat.log2 den - 1) * 30103 / 100000
  raiseMagnitude num den 8 (estimate - 1)

/-- A decimal grid: the points `c * 10 ^ exponent`, seen from the value `4 * mantissa` in units of
`2 ^ (exponent - 2)`. The scaled value and its rounding interval share the unit of the scaled grid
points, so that comparisons are between integers. -/
structure Grid where
  value : Nat
  low : Nat
  high : Nat
  point : Nat
  closed : Bool

def grid (b : Binary) (exponent : Int) : Grid :=
  let (num, den) := powerOfTwo (b.exponent - 2)
  let (up, down) := powerOfTen exponent
  let scale := num * down
  { value := 4 * b.mantissa * scale
    low := (4 * b.mantissa - if b.isNarrowBelow then 1 else 2) * scale
    high := (4 * b.mantissa + 2) * scale
    point := den * up
    closed := b.mantissa % 2 == 0 }

/-- Whether the grid point `c` reads back as the value. -/
def Grid.hits (g : Grid) (c : Nat) : Bool :=
  if g.closed then g.low ≤ c * g.point && c * g.point ≤ g.high
  else g.low < c * g.point && c * g.point < g.high

/-- The grid point nearest to the value among its two neighbours that read back as it. -/
def Grid.nearest? (g : Grid) : Option Nat :=
  let below := g.value / g.point
  match g.hits below, g.hits (below + 1) with
  | true, true => some (if 2 * g.value ≤ (2 * below + 1) * g.point then below else below + 1)
  | true, false => some below
  | false, true => some (below + 1)
  | false, false => none

/-- The first of the grids of `count` to `17` digits with a point that reads back. -/
def shortestFrom (b : Binary) (magnitude : Int) (count : Nat) : Nat → Decimal
  | 0 =>
    let g := b.grid (magnitude - 17)
    ⟨g.value / g.point, magnitude - 17⟩
  | fuel + 1 =>
    match (b.grid (magnitude - count)).nearest? with
    | some c => ⟨c, magnitude - count⟩
    | none => shortestFrom b magnitude (count + 1) fuel

/-- The shortest decimal that reads back as the given positive value, and of two with as many digits
the nearer one. -/
def shortest (b : Binary) : Decimal :=
  let (num, den) := powerOfTwo b.exponent
  shortestFrom b (decimalMagnitude (b.mantissa * num) den) 1 17

end Binary

namespace Decimal

/-- Drops the trailing zeros of the digits. -/
def trimZeros : Nat → Decimal → Decimal
  | 0, d => d
  | fuel + 1, d =>
    if d.digits % 10 == 0 && d.digits != 0 then trimZeros fuel ⟨d.digits / 10, d.exponent + 1⟩
    else d

/-- Positional notation, with a point only where there is a fraction. -/
def positional (d : Decimal) : String :=
  let text := toString d.digits
  if d.exponent ≥ 0 then text ++ String.ofList (List.replicate d.exponent.toNat '0')
  else
    let places := (-d.exponent).toNat
    let digits := text.toList
    let padded := List.replicate (places + 1 - digits.length) '0' ++ digits
    let (whole, fraction) := padded.splitAt (padded.length - places)
    String.ofList whole ++ "." ++ String.ofList fraction

/-- The shortest decimal of a finite double's magnitude; zero has the single digit 0. -/
def ofFloat? (x : Float) : Option Decimal :=
  (Binary.ofFloat? x).map fun b =>
    if b.mantissa = 0 then ⟨0, 0⟩ else trimZeros 20 b.shortest

/-- Positional text of a double with the fewest digits that read back: never an exponent, no
trailing point, and the sign of a negative zero kept. -/
def textOfFloat (x : Float) : String :=
  let sign := if Binary.isNegative x then "-" else ""
  match ofFloat? x with
  | some d => sign ++ d.positional
  | none => if x == x then sign ++ "inf" else "NaN"

end Decimal

end InfoFlow
