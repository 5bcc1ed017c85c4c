import InfoFlow.Matrix

namespace InfoFlow

variable {α : Type} [Scalar α]

/-- Whether two rows are equal, entry by entry, where a NaN equals a NaN and 0 equals -0. -/
def isSameRow (x y : List α) : Bool :=
  x.length == y.length && (x.zip y).all fun (a, b) => Scalar.totalEq a b

/-- Numbers of rows that have appeared, each machine word at most once. -/
abbrev RowIds (α : Type) := List (List α × UInt64)

namespace RowIds

/-- The number of a row that has appeared. -/
def idOf? (ids : RowIds α) (row : List α) : Option UInt64 :=
  (List.find? (fun (known, _) => isSameRow known row) ids).map (·.2)

/-- The number after the largest one; 0 if there is none. -/
def next (ids : RowIds α) : UInt64 :=
  match (ids.map (·.2)).max? with
  | some id => id + 1
  | none => 0

/-- The number of each row, new ones starting from `fresh`, and all numbers after them. -/
def assignFrom (ids : RowIds α) (fresh : UInt64) : List (List α) → List UInt64 × RowIds α
  | [] => ([], ids)
  | row :: rows =>
    match ids.idOf? row with
    | some id =>
      let (rest, ids) := assignFrom ids fresh rows
      (id :: rest, ids)
    | none =>
      let (rest, ids) := assignFrom (ids ++ [(row, fresh)]) (fresh + 1) rows
      (fresh :: rest, ids)

/-- The number of each row of a matrix, and all numbers after them. New rows get the numbers after the
largest one so far. -/
def assign (ids : RowIds α) (m : Matrix α) : List UInt64 × RowIds α :=
  ids.assignFrom ids.next m.toLists

end RowIds

/-- The numbers of the rows of a matrix. -/
def Matrix.rowIds (m : Matrix α) : List UInt64 := (RowIds.assign [] m).1

end InfoFlow
