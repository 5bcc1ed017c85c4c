import InfoFlow.Decimal.Shortest
import InfoFlow.Scalar.Basic

namespace InfoFlow.Scalar

/-- Bit pattern of a double, moved so that the order of the numbers is the order of the words. -/
def orderedBits (x : Float) : UInt64 :=
  let bits := x.toBits
  if bits >>> 63 == 1 then ~~~bits else bits ^^^ 0x8000000000000000

/-- Distance of two doubles in the order of their bit patterns, as a signed word. -/
def stepsOfFloat (x y : Float) : Nat :=
  (orderedBits x - orderedBits y).toInt64.toInt.natAbs

/-- The double just below a positive double. -/
def predecessorOfFloat (x : Float) : Float := Float.ofBits (x.toBits - 1)

/-- What a division that truncates toward zero leaves, exactly. -/
def remainderOfFloat (x y : Float) : Float :=
  match Binary.ofFloat? x, Binary.ofFloat? y with
  | some a, some b =>
    if b.mantissa = 0 then 0 / 0
    else
      let e := Min.min a.exponent b.exponent
      let m := a.mantissa <<< (a.exponent - e).toNat
      let n := b.mantissa <<< (b.exponent - e).toNat
      let r := Float.scaleB (Float.ofNat (m % n)) e
      if Binary.isNegative x then -r else r
  | some _, none => if y.isNaN then y else x
  | none, _ => 0 / 0

/-- The largest whole double that is not above. Doubles from `2 ^ 52` on are whole, and stay as they
are; so do zeros, infinities and NaNs. -/
def floorOfFloat (x : Float) : Float :=
  if 0 < x && x < 4503599627370496 then x.toUInt64.toFloat
  else if x < 0 && -4503599627370496 < x then
    let whole := (-x).toUInt64.toFloat
    if whole == -x then x else -(whole + 1)
  else x

/-- The smallest whole double that is not below. -/
def ceilOfFloat (x : Float) : Float := -floorOfFloat (-x)

/-- Truncation toward zero, clamped to the signed words; 0 for a NaN. -/
def toInt64OfFloat (x : Float) : Int64 :=
  if x < 0 then Int64.ofIntClamp (-(-x).toUInt64.toNat) else Int64.ofIntClamp x.toUInt64.toNat

/-- The double nearest to a decimal. Decimals far outside the range of doubles are decided by
their magnitude alone, so that no power of ten with a huge exponent is formed. -/
def floatOfScientific (m : Nat) (isNegative : Bool) (e : Nat) : Float :=
  if m = 0 then 0
  else if isNegative then
    if 400 + m.log2 * 302 / 1000 < e then 0 else Float.ofScientific m true e
  else if 400 < e then 1 / 0
  else Float.ofScientific m false e

instance : Scalar Float where
  decLt := inferInstance
  decLe := inferInstance
  ofNat := Float.ofNat
  ofScientific := floatOfScientific
  ofFloat x := x
  infinity := 1 / 0
  nan := 0 / 0
  abs := Float.abs
  floor := floorOfFloat
  ceil := ceilOfFloat
  round := Float.round
  sqrt := Float.sqrt
  exp := Float.exp
  log := Float.log
  log2 := Float.log2
  log10 := Float.log10
  sin := Float.sin
  tan := Float.tan
  atan := Float.atan
  pow := Float.pow
  remainder := remainderOfFloat
  toUInt64 := Float.toUInt64
  toInt64 := toInt64OfFloat
  steps := stepsOfFloat
  predecessor := predecessorOfFloat
  text := Decimal.textOfFloat

end InfoFlow.Scalar
