import InfoFlow.Document.Decoder
import InfoFlow.Inference.Trace

namespace InfoFlow

open Decoder

variable {α : Type} [Scalar α]

def TraceRole.ofDocument? : Decoder TraceRole :=
  variant [("Secret", .secret), ("Public", .known), ("Output", .output)]

def TracedVariable.ofDocument? : Decoder TracedVariable := fun d => do
  return {
    name := ← required d 0 "name" Document.text?
    width := ← required d 1 "width" count
    isScalar := ← required d 2 "scalar" Document.bool?
    isDiscrete := ← required d 3 "discrete" Document.bool?
    isHyper := ← required d 4 "hyper" Document.bool?
    role := ← required d 5 "role" TraceRole.ofDocument?
    isReachable := ← required d 6 "reachable" Document.bool?
  }

def VariableSummary.ofDocument? : Decoder (VariableSummary α) := fun d => do
  return {
    name := ← required d 0 "name" Document.text?
    rHat := ← required d 1 "r_hat" (list (optional Document.scalar?))
    effectiveSize := ← required d 2 "ess" (list Document.scalar?)
  }

def ChainSummary.ofDocument? : Decoder (ChainSummary α) := fun d => do
  return {
    chain := ← required d 0 "chain" count
    draws := ← required d 1 "draws" count
    acceptance := ← required d 2 "acceptance_rate" Document.scalar?
    divergences := ← required d 3 "divergences" count
    isTruncated := ← required d 4 "truncated" Document.bool?
  }

def Warning.ofDocument? : Decoder Warning := fun d => do
  return {
    chain := ← required d 0 "chain" count
    iteration := ← required d 1 "iteration" count
    variableName := ← required d 2 "variable" Document.text?
    reason := ← required d 3 "reason" Document.text?
  }

def Diagnostics.ofDocument? : Decoder (Diagnostics α) := fun d => do
  return {
    summaries := ← required d 0 "variables" (list VariableSummary.ofDocument?)
    chains := ← required d 1 "chains" (list ChainSummary.ofDocument?)
    warnings := ← required d 2 "warnings" (list Warning.ofDocument?)
  }

/-- The matrices of a chain, one per variable. -/
def Trace.matricesOf (traced : List TracedVariable) : Decoder (List (Matrix α)) := fun d => do
  (← list (list (list Document.scalar?)) d).zipIdx.mapM fun (rows, v) =>
    some (Matrix.ofLists ((traced[v]?.map TracedVariable.width).getD 1) rows)

/-- A trace. The matrix of a variable is a list of rows, as wide as the variable is declared.
Nothing else is checked: a chain may lack matrices, or have more than there are variables. -/
def Trace.ofDocument? : Decoder (Trace α) := fun d => do
  let traced ← d.field? "variables" >>= list TracedVariable.ofDocument?
  return {
    modelName := ← d.field? "model" >>= Document.text?
    traced := traced
    chains := ← d.field? "chains" >>= list (Trace.matricesOf traced)
    diagnostics := ← match d.field? "diagnostics" with
      | some diagnostics => Diagnostics.ofDocument? diagnostics
      | none => some .empty
    isConditioned := ← d.field? "conditioned" >>= Document.bool?
  }

end InfoFlow
