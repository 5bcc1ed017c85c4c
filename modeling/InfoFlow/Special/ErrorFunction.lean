import InfoFlow.Special.Pieces

namespace InfoFlow.Special

variable {α : Type} [Scalar α]

/-- The error function in `[0, 1/2)`. -/
def erfNearZero (z : α) : α :=
  if z < 1e-10 then z * 1.125 + z * 0.003379167095512573896158903121545171688
  else
    z * 1.125 + z * polynomial z errorNearZero.numerator / polynomial z errorNearZero.denominator

/-- The complementary error function from a half on; 0 from 110 on. -/
def erfcTail (z : α) : α :=
  match pieceAt? z errorTail with
  | some p =>
    let g := Scalar.exp (-z * z) / z
    g * Scalar.ofFloat p.level + g * p.quotient z
  | none => 0

/-- The error function of a non-negative number. -/
def erfNonneg (z : α) : α :=
  if z < 0.5 then erfNearZero z else 1 - erfcTail z

/-- The complementary error function of a finite number. -/
def erfcFinite (z : α) : α :=
  if z < 0 then
    if z < -0.5 then 2 - erfcTail (-z) else 1 + erfNonneg (-z)
  else if z < 0.5 then 1 - erfNearZero z
  else erfcTail z

def erfc (x : α) : α :=
  if Scalar.isNaN x then Scalar.nan
  else if x == Scalar.infinity then 0
  else if x == -Scalar.infinity then 2
  else erfcFinite x

/-- The inverse of the error function at `p = 1 - q`, for `p` in `[0, 1)`. -/
def erfInverse (p q : α) : α :=
  if p ≤ 0.5 then
    let g := p * (p + 10)
    g * Scalar.ofFloat inverseCentre.level + g * inverseCentre.quotient p
  else if 0.25 ≤ q then
    let g := Scalar.sqrt (-2 * Scalar.log q)
    g / (Scalar.ofFloat inverseShoulder.level + inverseShoulder.quotient q)
  else
    let x := Scalar.sqrt (-Scalar.log q)
    match pieceAt? x inverseTail with
    | some piece => Scalar.ofFloat piece.level * x + piece.quotient x * x
    | none => Scalar.nan

/-- The inverse of the complementary error function, infinite at the ends of `(0, 2)`. -/
def erfcInverse (x : α) : α :=
  if x ≤ 0 then Scalar.infinity
  else if 2 ≤ x then -Scalar.infinity
  else if 1 < x then -1 * erfInverse (-1 + x) (2 - x)
  else 1 * erfInverse (1 - x) x

/-- The standard normal distribution function. -/
def normalCdf (z : α) : α := 0.5 * erfc (-z / Scalar.sqrt2)

end InfoFlow.Special
