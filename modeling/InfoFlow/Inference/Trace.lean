import InfoFlow.Inference.Diagnostics
import InfoFlow.Matrix
import InfoFlow.Program.Selector

namespace InfoFlow

/-- What a traced variable is in the program. -/
inductive TraceRole where
  | secret
  | known
  | output
  deriving Repr, DecidableEq

structure TracedVariable where
  name : String
  width : Nat
  isScalar : Bool
  isDiscrete : Bool
  isHyper : Bool
  role : TraceRole
  /-- Some output may depend on the variable. -/
  isReachable : Bool
  deriving Repr, DecidableEq

/-- The samples of every input and output of a model, chain by chain: each chain has a matrix per
variable, in the order of the variables, and the rows at one position come from one draw. -/
structure Trace (α : Type) where
  modelName : String
  traced : List TracedVariable
  chains : List (List (Matrix α))
  diagnostics : Diagnostics α
  /-- The samples come from a posterior. -/
  isConditioned : Bool

/-- A lookup that names a matrix or a column that is not stored. -/
inductive OutOfBounds where
  | outOfBounds
  deriving Repr, DecidableEq

/-- An answer, none, or a lookup out of bounds, which only a trace from outside leads to. -/
abbrev Lookup := OptionT (Except OutOfBounds)

namespace Lookup

variable {β : Type}

/-- A value that has to be there. -/
def required : Option β → Lookup β
  | some b => pure b
  | none => OptionT.lift (.error .outOfBounds)

/-- A value that may be missing. -/
def optional : Option β → Lookup β
  | some b => pure b
  | none => failure

end Lookup

namespace Trace

variable {α : Type}

/-- Position of a name among the variables. -/
def position? (t : Trace α) (name : String) : Option Nat :=
  t.traced.findIdx? (·.name == name)

def info? (t : Trace α) (name : String) : Option TracedVariable :=
  t.traced.find? (·.name == name)

/-- Number of draws in each chain. -/
def draws (t : Trace α) : List Nat :=
  t.chains.map fun c => (c.head?.map Matrix.size).getD 0

/-- Number of draws in all chains. -/
def length (t : Trace α) : Nat := t.draws.foldr (· + ·) 0

/-- The matrix of variable `v` in each chain. -/
def matrices (t : Trace α) (v : Nat) : Lookup (List (Matrix α)) :=
  t.chains.mapM fun ms => Lookup.required ms[v]?

/-- Whether all numbers of a trace are finite, so that a notation without infinities can hold it. -/
def isFinite [Scalar α] (t : Trace α) : Bool :=
  let samples := t.chains.flatMap fun c => c.flatMap fun m => m.toLists.flatten
  let diagnostics := t.diagnostics.summaries.flatMap fun v =>
    v.rHat.filterMap id ++ v.effectiveSize
  (samples ++ diagnostics ++ t.diagnostics.chains.map ChainSummary.acceptance).all Scalar.isFinite

/-- Samples of a variable in one chain. -/
def chain (t : Trace α) (c : Nat) (name : String) : Lookup (Matrix α) := do
  let v ← Lookup.optional (t.position? name)
  Lookup.required (← Lookup.optional t.chains[c]?)[v]?

/-- Samples of a variable, chains in order. There are none without chains, or if the chains disagree
on the width. -/
def merged (t : Trace α) (name : String) : Lookup (Matrix α) := do
  let v ← Lookup.optional (t.position? name)
  Lookup.optional (Matrix.stackAll? (← t.matrices v))

/-- Samples of what a selector names, and whether they are whole numbers. -/
def samples (t : Trace α) (selector : String) : Lookup (Matrix α × Bool) := do
  let s ← Lookup.optional (Selector.parse? selector)
  let info ← Lookup.optional (t.info? s.name)
  let merged ← t.merged s.name
  match s.index with
  | none => return (merged, info.isDiscrete)
  | some e =>
    if info.width ≤ e then failure
    return (← Lookup.required (merged.ofColumn? e), info.isDiscrete)

/-- Draws of one element of a variable, chain by chain. -/
def elementChains (t : Trace α) (name : String) (e : Nat) : Lookup (List (List α)) := do
  let v ← Lookup.optional (t.position? name)
  let info ← Lookup.required t.traced[v]?
  if info.width ≤ e then failure
  (← t.matrices v).mapM fun m => Lookup.required (m.column? e)

end Trace

end InfoFlow
