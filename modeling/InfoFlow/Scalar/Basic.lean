/-!
The numbers an analysis computes with.

`Scalar` lists the operations that densities, estimators and samplers are written in, so that one
definition serves both the doubles a program runs on and any other arithmetic one reasons in. The
derived operations below are defined from the listed ones only.

Comparisons follow the arithmetic: an instance may have values, such as a NaN, for which `==`, `<`
and `≤` are all false, and the definitions branch on the comparison they mean.
-/

namespace InfoFlow

class Scalar (α : Type) extends Add α, Sub α, Mul α, Div α, Neg α, LT α, LE α, BEq α where
  decLt : DecidableLT α
  decLe : DecidableLE α
  ofNat : Nat → α
  /-- `ofScientific m true e` is `m / 10 ^ e`, and `ofScientific m false e` is `m * 10 ^ e`. -/
  ofScientific : Nat → Bool → Nat → α
  /-- The number a double-precision constant stands for. -/
  ofFloat : Float → α
  infinity : α
  nan : α
  abs : α → α
  floor : α → α
  ceil : α → α
  /-- Nearest integer, halves away from zero. -/
  round : α → α
  sqrt : α → α
  exp : α → α
  log : α → α
  log2 : α → α
  log10 : α → α
  sin : α → α
  tan : α → α
  atan : α → α
  pow : α → α → α
  /-- What a division that truncates toward zero leaves, with the sign of the dividend. -/
  remainder : α → α → α
  /-- Truncation toward zero, clamped to the words; 0 for a NaN. -/
  toUInt64 : α → UInt64
  /-- Truncation toward zero, clamped to the signed words; 0 for a NaN. -/
  toInt64 : α → Int64
  /-- How many representable numbers one steps over from the first number to the second. -/
  steps : α → α → Nat
  /-- The next smaller representable number. -/
  predecessor : α → α
  /-- Shortest positional text. -/
  text : α → String

namespace Scalar

variable {α : Type} [Scalar α]

instance : DecidableLT α := decLt
instance : DecidableLE α := decLe

instance (priority := low) {n : Nat} : OfNat α n := ⟨ofNat n⟩
instance (priority := low) : OfScientific α := ⟨ofScientific⟩
instance (priority := low) : Inhabited α := ⟨0⟩

def ofInt (i : Int) : α :=
  if i < 0 then -ofNat i.natAbs else ofNat i.natAbs

def ofUInt64 (w : UInt64) : α := ofNat w.toNat

def ofInt64 (w : Int64) : α := ofInt w.toInt

def isNaN (x : α) : Bool := !(x == x)

def isInfinite (x : α) : Bool := x == infinity || x == -infinity

def isFinite (x : α) : Bool := !isNaN x && !isInfinite x

/-- The larger of two numbers; a NaN gives way to the other one. -/
def max (x y : α) : α :=
  if isNaN x then y else if x < y then y else x

/-- The smaller of two numbers; a NaN gives way to the other one. -/
def min (x y : α) : α :=
  if isNaN x then y else if y < x then y else x

def trunc (x : α) : α :=
  if x < 0 then ceil x else floor x

/-- What truncation takes away; a NaN for infinities. -/
def fract (x : α) : α := x - trunc x

def isInteger (x : α) : Bool := fract x == 0

/-- Sum from the left, starting from 0. -/
def sum (xs : List α) : α := xs.foldl (· + ·) 0

/-- The power with a natural exponent, by repeated squaring from the low bits on. -/
def powNat (x : α) (n : Nat) : α := go 1 x n
where
  go (product square : α) (n : Nat) : α :=
    let product := if n % 2 = 1 then product * square else product
    if h : n / 2 = 0 then product else go product (square * square) (n / 2)
  termination_by n
  decreasing_by omega

/-- `0 ^ 0 = 1` in logarithms: `k * log p`, and 0 when `k` is 0. -/
def mulLog (k p : α) : α := if k == 0 then 0 else k * log p

/-- `exp x - 1`, without cancellation near 0. -/
def expMinusOne (x : α) : α :=
  let u := exp x
  if u == 1 then x
  else
    let d := u - 1
    if d == -1 then d else d * x / log u

/-- `log (1 + x)`, without cancellation near 0. -/
def logOnePlus (x : α) : α :=
  let u := 1 + x
  if u == 1 then x else log u * x / (u - 1)

/-- The distance of one and the next larger double. -/
def epsilon : α := 1 / ofNat (Nat.pow 2 52)

/-- Equal, or at most `margin` apart. -/
def isWithin (margin x y : α) : Bool :=
  x == y || abs (x - y) ≤ margin

/-- Equal, or at most `n` representable numbers apart. -/
def isWithinSteps (n : Nat) (x y : α) : Bool :=
  x == y || steps x y ≤ n

/-- Equal up to rounding: within `epsilon`, or at most four representable numbers apart. -/
def isClose (x y : α) : Bool :=
  isWithin epsilon x y || steps x y ≤ 4

/-- The total order that puts a NaN above everything and equal to itself. -/
def totalLe (x y : α) : Bool := isNaN y || x ≤ y

/-- Equality in which a NaN equals itself. -/
def totalEq (x y : α) : Bool := x == y || (isNaN x && isNaN y)

def pi : α := ofFloat 3.141592653589793

def e : α := ofFloat 2.718281828459045

/-- The natural logarithm of two. -/
def ln2 : α := ofFloat 0.6931471805599453

def sqrt2 : α := ofFloat 1.4142135623730951

end Scalar

end InfoFlow
