import InfoFlow.Scalar.Basic

namespace InfoFlow

/-- Whether rows or columns are stored in one piece. -/
inductive Layout where
  | byRow
  | byColumn
  deriving Repr, DecidableEq

structure Matrix (α : Type) where
  width : Nat
  rows : Array (Vector α width)
  layout : Layout

namespace Matrix

variable {α : Type}

def size (m : Matrix α) : Nat := m.rows.size

/-- The numbers, row by row. -/
def toLists (m : Matrix α) : List (List α) := m.rows.toList.map Vector.toList

/-- Column `j`, from top to bottom; `none` if there is no such column. -/
def column? (m : Matrix α) (j : Nat) : Option (List α) :=
  if h : j < m.width then some (m.rows.toList.map fun row => row[j]) else none

/-- Column `j` as a matrix of its own. -/
def ofColumn? (m : Matrix α) (j : Nat) : Option (Matrix α) :=
  if h : j < m.width then some ⟨1, m.rows.map fun row => #v[row[j]], .byRow⟩ else none

/-- The first `n` rows. All of them stay stored as they are; fewer are stored row by row. -/
def take (m : Matrix α) (n : Nat) : Matrix α :=
  ⟨m.width, m.rows.take n, if m.size ≤ n then m.layout else .byRow⟩

/-- The rows at some positions, in their order; positions without a row are left out. -/
def select (m : Matrix α) (positions : List Nat) : Matrix α :=
  ⟨m.width, (positions.filterMap fun i => m.rows[i]?).toArray, .byRow⟩

/-- A matrix of one column. -/
def ofVector (xs : List α) : Matrix α := ⟨1, (xs.map fun x => #v[x]).toArray, .byRow⟩

/-- The rows of two matrices of the same width, one below the other. -/
def stack? (a b : Matrix α) : Option (Matrix α) :=
  if h : b.width = a.width then some ⟨a.width, a.rows ++ b.rows.map (Vector.cast h), .byRow⟩
  else none

/-- Matrices of the same width, one below the other; `none` for none. -/
def stackAll? : List (Matrix α) → Option (Matrix α)
  | [] => none
  | m :: ms => ms.foldlM stack? { m with layout := .byRow }

/-- The columns of two matrices of the same size, side by side. -/
def beside? (a b : Matrix α) : Option (Matrix α) :=
  if a.size = b.size then
    some ⟨a.width + b.width, Array.zipWith (· ++ ·) a.rows b.rows, .byColumn⟩
  else none

/-- Matrices of the same size, side by side; `none` for none. -/
def besideAll? : List (Matrix α) → Option (Matrix α)
  | [] => none
  | m :: ms => ms.foldlM beside? { m with layout := .byColumn }

/-- Whether columns are stored in one piece, as is the only column of a matrix. -/
def hasWholeColumns (m : Matrix α) : Bool := m.layout == .byColumn || m.width == 1

theorem flatIndex_lt {size width i j : Nat} (hi : i < size) (hj : j < width) :
    i * width + j < size * width :=
  calc i * width + j < i * width + width := Nat.add_lt_add_left hj _
    _ = (i + 1) * width := (Nat.succ_mul i width).symm
    _ ≤ size * width := Nat.mul_le_mul_right width hi

/-- A matrix of some size from its numbers, row by row; `none` if they are too few or too many. -/
def ofFlat? (size width : Nat) (xs : Array α) : Option (Matrix α) :=
  if h : xs.size = size * width then
    let entry (i : Fin size) (j : Fin width) : α :=
      have hlt : i.val * width + j.val < xs.size := h ▸ flatIndex_lt i.isLt j.isLt
      xs[i.val * width + j.val]
    some ⟨width, Array.ofFn fun i => Vector.ofFn (entry i), .byRow⟩
  else none

variable [Scalar α]

/-- A matrix from rows that are given as lists. Missing numbers are 0, numbers beyond the width are
dropped. -/
def ofLists (width : Nat) (rows : List (List α)) : Matrix α :=
  ⟨width, (rows.map fun row => Vector.ofFn fun j : Fin width => row.getD j 0).toArray, .byRow⟩

/-- Whether all rows are the same. -/
def isConstant (m : Matrix α) : Bool :=
  match m.toLists with
  | [] => true
  | first :: rest => (first :: rest).all (· == first)

/-- Whether all numbers are whole. -/
def isInteger (m : Matrix α) : Bool := m.toLists.all (·.all Scalar.isInteger)

/-- Adds eight numbers to eight lanes, again and again, as long as there are eight; answers the lanes
and the numbers left over. -/
def fillLanes : List α → List α → List α × List α
  | lanes, a :: b :: c :: d :: e :: f :: g :: h :: rest =>
    fillLanes (List.zipWith (· + ·) lanes [a, b, c, d, e, f, g, h]) rest
  | lanes, rest => (lanes, rest)

/-- The sum of a list in eight interleaved lanes: the lanes are added up in pairs four apart, and then
the numbers that are left over. -/
def lanedSum (xs : List α) : α :=
  let (lanes, rest) := fillLanes (List.replicate 8 0) xs
  let pairs := List.zipWith (· + ·) (lanes.take 4) (lanes.drop 4)
  (pairs ++ rest).foldl (· + ·) 0

/-- The sum of a column of the matrix: in eight lanes where columns are stored in one piece, else
from top to bottom. -/
def columnSum (m : Matrix α) (column : List α) : α :=
  if m.hasWholeColumns then lanedSum column else Scalar.sum column

/-- The population standard deviation of a column of a matrix. -/
def columnDeviation (m : Matrix α) (column : List α) : α :=
  let n : α := Scalar.ofNat column.length
  let mean := m.columnSum column / n
  Scalar.sqrt (Scalar.sum (column.map fun x => (x - mean) * (x - mean)) / n)

/-- What the numbers of each column are divided by to get unit variance; 1 for a constant column. -/
def columnScales (m : Matrix α) : Vector α m.width :=
  Vector.ofFn fun j =>
    let deviation := m.columnDeviation (m.rows.toList.map fun row => row[j])
    if 0 < deviation then deviation else 1

/-- Scales each column to unit variance. Columns without deviation are left as they are. -/
def scaled (m : Matrix α) : Matrix α :=
  if m.size = 0 then m
  else
    let scales := m.columnScales
    { m with rows := m.rows.map fun row => Vector.zipWith (· / ·) row scales }

end Matrix

end InfoFlow
