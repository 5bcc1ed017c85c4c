import InfoFlow.Breakdown

/-!
Everything random is a computation on a stream of 64-bit words, given by its state and a step. The
draws are written for any stream, so what is shown of them holds whatever words come up; programs run
them on `Xoshiro`, the `xoshiro256++` generator seeded through SplitMix64.
-/

namespace InfoFlow

/-- States of a stream of 64-bit words. -/
class RandomWords (σ : Type) where
  next : σ → UInt64 × σ

/-- A computation that takes words from a stream. -/
abbrev Random (σ : Type) := StateM σ

namespace Random

variable {σ : Type}

def word [RandomWords σ] : Random σ UInt64 := fun s => RandomWords.next s

/-- The rounds after which a draw by rejection gives up; no run gets that far. -/
def rounds : Nat := 4611686018427387904

/-- Carries a state through rounds until one of them answers. -/
@[specialize]
def iterate {τ β : Type} (round : τ → Random σ (τ ⊕ β)) (giveUp : τ → β) : Nat → τ → Random σ β
  | 0, t => pure (giveUp t)
  | n + 1, t => do
    match ← round t with
    | .inl t => iterate round giveUp n t
    | .inr b => pure b

/-- Repeats a trial until it is accepted. -/
@[specialize]
def untilAccepted {β : Type} (trial : Random σ (Option β)) (giveUp : β) : Nat → Random σ β
  | 0 => pure giveUp
  | n + 1 => do
    match ← trial with
    | none => untilAccepted trial giveUp n
    | some b => pure b

end Random

/-- A computation on a stream of words that may break down. -/
abbrev Drawing (σ : Type) := ExceptT Breakdown (Random σ)

namespace Drawing

variable {σ β τ : Type}

/-- A computation that does not break down. -/
def lift (x : Random σ β) : Drawing σ β := ExceptT.lift x

theorem run_lift_bind {γ : Type} (x : Random σ β) (f : β → Drawing σ γ) :
    (lift x >>= f).run = x >>= fun b => (f b).run := rfl

/-- The end of a trial that is accepted or breaks down; `none` if it has to be repeated. -/
def settled? : Except Breakdown (Option β) → Option (Except Breakdown β)
  | .ok none => none
  | .ok (some b) => some (.ok b)
  | .error b => some (.error b)

/-- Repeats a trial until it is accepted. One that is not accepted in all rounds is not accepted ever. -/
@[specialize]
def untilAccepted (trial : Drawing σ (Option β)) : Drawing σ β :=
  ExceptT.mk (Random.untilAccepted (settled? <$> trial.run) (.error .endless) Random.rounds)

/-- Carries a state through rounds until one of them answers. -/
@[specialize]
def iterate (round : τ → Random σ (τ ⊕ β)) (t : τ) : Drawing σ β :=
  ExceptT.mk (Random.iterate (fun t => Sum.map id .ok <$> round t) (fun _ => .error .endless)
    Random.rounds t)

end Drawing

/-- State of the `xoshiro256++` generator. -/
structure Xoshiro where
  s0 : UInt64
  s1 : UInt64
  s2 : UInt64
  s3 : UInt64
  deriving Repr, DecidableEq

namespace Xoshiro

def rotateLeft (x k : UInt64) : UInt64 := (x <<< k) ||| (x >>> (64 - k))

def next (g : Xoshiro) : UInt64 × Xoshiro :=
  let answer := rotateLeft (g.s0 + g.s3) 23 + g.s0
  let t := g.s1 <<< 17
  let s2 := g.s2 ^^^ g.s0
  let s3 := g.s3 ^^^ g.s1
  let s1 := g.s1 ^^^ s2
  let s0 := g.s0 ^^^ s3
  (answer, ⟨s0, s1, s2 ^^^ t, rotateLeft s3 45⟩)

instance : RandomWords Xoshiro := ⟨next⟩

/-- One output of SplitMix64 at counter `x`. -/
def splitMix (x : UInt64) : UInt64 :=
  let z := (x ^^^ (x >>> 30)) * 0xbf58476d1ce4e5b9
  let z := (z ^^^ (z >>> 27)) * 0x94d049bb133111eb
  z ^^^ (z >>> 31)

/-- The generator of a seed: its state is four outputs of SplitMix64. -/
def ofSeed (seed : UInt64) : Xoshiro :=
  let golden : UInt64 := 0x9e3779b97f4a7c15
  ⟨splitMix (seed + golden), splitMix (seed + 2 * golden), splitMix (seed + 3 * golden),
    splitMix (seed + 4 * golden)⟩

def xor (a b : Xoshiro) : Xoshiro :=
  ⟨a.s0 ^^^ b.s0, a.s1 ^^^ b.s1, a.s2 ^^^ b.s2, a.s3 ^^^ b.s3⟩

/-- The coefficients of the polynomial that skips `2 ^ 128` outputs. -/
def jumpWords : List UInt64 :=
  [0x180ec6d33cfd0aba, 0xd5a61266f0c9392c, 0xa9582618e03fc9aa, 0x39abdc4529b1661c]

/-- Skips `2 ^ 128` outputs. -/
def jump (g : Xoshiro) : Xoshiro :=
  let step (acc : Xoshiro × Xoshiro) (w : UInt64) (bit : Nat) : Xoshiro × Xoshiro :=
    let (sum, g) := acc
    (if (w >>> bit.toUInt64) &&& 1 == 1 then sum.xor g else sum, g.next.2)
  (jumpWords.foldl (fun acc w => (List.range 64).foldl (step · w) acc) (⟨0, 0, 0, 0⟩, g)).1

/-- The stream of the `i`-th of several parties that share a seed: the seeded generator, jumped
`i` times, so that the streams do not overlap. -/
def ofSeedJumped (seed : UInt64) (i : Nat) : Xoshiro :=
  Nat.repeat jump i (ofSeed seed)

end Xoshiro

end InfoFlow
