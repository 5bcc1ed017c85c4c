import InfoFlow.Information.Samples
import InfoFlow.Variable

namespace InfoFlow

structure Dataset (α : Type) where
  columns : List String
  isDiscrete : List Bool
  records : Matrix α

namespace Dataset

variable {α σ : Type} [Scalar α] [RandomWords σ]

/-- The columns of a variable: name, whether it is discrete, and the numbers in it. -/
abbrev Columns (α : Type) := List (String × Bool × List α)

/-- The sampler of a variable whose parameters are all literals. -/
def samplerOf (v : Variable α) : Except (Failure InvalidParameter) (Sampler α) :=
  match v.sampler? with
  | some sampler => sampler
  | none =>
    .error (.error ⟨v.name, v.family.name, "*", "attacker datasets need literal parameters"⟩)

/-- The names of the columns of a variable, one for each element. -/
def columnNames (v : Variable α) : List String :=
  (List.range v.width).map fun e => if 1 < v.width then s!"{v.name}[{e}]" else v.name

/-- Independent draws, one after the other. -/
def drawMany (s : Sampler α) (n : Nat) : Drawing σ (List α) :=
  (List.range n).mapM fun _ => s.draw

/-- Every `step`-th number, from a position on. -/
def strided (numbers : Array α) (start step : Nat) : List α :=
  (List.range ((numbers.size - start + step - 1) / step)).map fun i =>
    numbers.getD (start + i * step) 0

/-- The columns of a variable for a number of records. -/
def drawColumns (v : Variable α) (s : Sampler α) (records : Nat) : Drawing σ (Columns α) := do
  let draws := (← drawMany s (records * v.width)).toArray
  return (columnNames v).zipIdx.map fun (name, e) =>
    (name, v.isDiscrete, strided draws e v.width)

/-- The columns of several variables; the first variable without a sampler is the error. -/
def drawAll (records : Nat) :
    List (Variable α) → Random σ (Except (Failure InvalidParameter) (Columns α))
  | [] => return .ok []
  | v :: vs => do
    match samplerOf v with
    | .error failure => return .error failure
    | .ok s =>
      match ← (drawColumns v s records).run with
      | .error b => return .error (.breakdown b)
      | .ok columns =>
        match ← drawAll records vs with
        | .error failure => return .error failure
        | .ok rest => return .ok (columns ++ rest)

/-- The records that some columns make up. -/
def ofColumns (records : Nat) (columns : Columns α) : Dataset α :=
  let numbers := columns.map fun (_, _, xs) => xs.toArray
  let rows := (List.range records).map fun r => numbers.map fun xs => xs.getD r 0
  ⟨columns.map (·.1), columns.map (·.2.1), Matrix.ofLists columns.length rows⟩

/-- Draws independent records of some variables. -/
def draw (declared : List (Variable α)) (records : Nat) (seed : UInt64) :
    Except (Failure InvalidParameter) (Dataset α) :=
  ((drawAll records declared).run (Xoshiro.ofSeed seed)).1.map (ofColumns records)

def size (d : Dataset α) : Nat := d.records.size

/-- The numbers of the first column of a name. -/
def column? (d : Dataset α) (name : String) : Option (List α) := do
  d.records.column? (← d.columns.findIdx? (· == name))

/-- The first column of a name as samples. -/
def samples? (d : Dataset α) (name : String) : Option (Samples α) := do
  let j ← d.columns.findIdx? (· == name)
  return ⟨← d.records.ofColumn? j, ← d.isDiscrete[j]?⟩

end Dataset

end InfoFlow
