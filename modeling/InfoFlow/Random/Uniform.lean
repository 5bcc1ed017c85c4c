import InfoFlow.Random.Words
import InfoFlow.Scalar.Basic

namespace InfoFlow.Random

variable {α σ : Type} [Scalar α] [RandomWords σ]

/-- A multiple of `2 ^ -53` in `[0, 1)`. -/
def unit : Random σ α := do
  return Scalar.ofNat ((← word) >>> 11).toNat / Scalar.ofNat 9007199254740992

/-- The midpoint of one of `2 ^ 52` equal parts of `(0, 1)`, from the high bits of a word. -/
def midpointOf (w : UInt64) : α :=
  Scalar.ofNat (2 * (w >>> 12).toNat + 1) / Scalar.ofNat 9007199254740992

/-- A draw from `(0, 1)`, without its ends. -/
def openUnit : Random σ α := do return midpointOf (← word)

/-- A multiple of `2 ^ -52` in `[0, 1)`. -/
def coarseUnit : Random σ α := do
  return Scalar.ofNat ((← word) >>> 12).toNat / Scalar.ofNat 4503599627370496

/-- A fair coin: the top bit of a word. -/
def coin : Random σ Bool := do return (← word) >>> 63 == 1

/-- The largest value of `coarseUnit`. -/
def coarseLimit : α := 1 - Scalar.epsilon

/-- How often a width is lowered to the next smaller number before it is taken as it is: more often than
there are doubles between a width and its half. -/
def widthSteps : Nat := rounds

/-- The first of the numbers from `width` downwards for which the range does not overshoot. -/
@[specialize]
def fitWidth (overshoots : α → Bool) : Nat → α → α
  | 0, width => width
  | n + 1, width =>
    if overshoots width then fitWidth overshoots n (Scalar.predecessor width) else width

/-- The range `[low, low + width)` of floats, its width lowered so that no draw reaches `high`. -/
structure FloatRange (α : Type) where
  low : α
  width : α

/-- The half-open range from `low` to `high`. -/
def FloatRange.halfOpen (low high : α) : Except Breakdown (FloatRange α) :=
  let width := high - low
  if !(low < high) then .error .emptyRange
  else if !Scalar.isFinite width then .error .rangeOverflow
  else .ok ⟨low, fitWidth (fun w => high ≤ w * coarseLimit + low) widthSteps width⟩

/-- The closed range from `low` to `high`. -/
def FloatRange.closed (low high : α) : FloatRange α :=
  ⟨low, fitWidth (fun w => high < w * coarseLimit + low) widthSteps ((high - low) / coarseLimit)⟩

def FloatRange.draw (r : FloatRange α) : Random σ α := do
  return (← coarseUnit) * r.width + r.low

/-- A word scaled down to `range` values: the high half of a double-width product, kept when the low
half does not exceed `zone`. -/
def scaledWord (range zone : Nat) : Random σ (Option Nat) := do
  let product := (← word).toNat * range
  return if product % UInt64.size ≤ zone then some (product / UInt64.size) else none

/-- One of the first `range` naturals, for a positive range that fits in a word; the zone is the
range shifted up as far as it goes. -/
def below (range : Nat) : Random σ Nat :=
  let zone := (range <<< (63 - range.log2)) - 1
  untilAccepted (scaledWord range zone) 0 rounds

/-- A signed word, whatever its value. -/
def signedWord : Random σ Int := do return (← word).toInt64.toInt

/-- An integer of the closed range from `low` to `high`, both signed words. -/
def integerBetween (low high : Int) : Random σ Int := do
  let range := (high - low + 1).toNat
  if range < UInt64.size then return low + (← below range) else signedWord

/-- A closed range of signed words that is drawn from repeatedly: its zone is the largest multiple
of the range, less one. -/
structure IntegerRange where
  low : Int
  size : Nat

def IntegerRange.draw (r : IntegerRange) : Random σ Int := do
  if r.size < UInt64.size then
    let zone := UInt64.size - 1 - (UInt64.size - r.size) % r.size
    return r.low + (← untilAccepted (scaledWord r.size zone) 0 rounds)
  else signedWord

/-- One of the first `range` naturals, from half words. -/
def belowHalf (range : Nat) : Random σ Nat :=
  let zone := (range <<< (31 - range.log2)) - 1
  let trial := do
    let product := ((← word) >>> 32).toNat * range
    return if product % UInt32.size ≤ zone then some (product / UInt32.size) else none
  untilAccepted trial 0 rounds

/-- An entry of a list; `none`, and no word taken, if it is empty. -/
def choose {β : Type} (xs : List β) : Random σ (Option β) := do
  if xs.isEmpty then return none else return xs[← belowHalf xs.length]?

end InfoFlow.Random
