import InfoFlow.Matrix

namespace InfoFlow

variable {α : Type} [Scalar α]

/-- Max-norm distance of two rows. -/
def maxDistance {n : Nat} (x y : Vector α n) : α :=
  ((x.zip y).toList.map fun (a, b) => Scalar.abs (a - b)).foldl Scalar.max 0

/-- The rows of a matrix, sorted by their first entry. Rows are at least as far apart as their first
entries, so that a search that walks outwards can stop early. -/
structure PointSet (α : Type) where
  points : Matrix α
  /-- Rows in increasing order of their first entry; rows with the same one stay in order. -/
  order : Array Nat
  /-- Position of each row in the order. -/
  rank : Array Nat

namespace PointSet

/-- The first entry of a row; 0 if rows are empty. -/
def firstOf (m : Matrix α) (i : Nat) : α :=
  if h : 0 < m.width then (m.rows[i]?.map fun row => row[0]).getD 0 else 0

def ofMatrix (m : Matrix α) : PointSet α :=
  let order := ((List.range m.size).mergeSort fun i j =>
    Scalar.totalLe (firstOf m i) (firstOf m j)).toArray
  let rank := order.toList.zipIdx.foldl (fun rank (i, r) => rank.setIfInBounds i r)
    (Array.replicate m.size 0)
  ⟨m, order, rank⟩

def size (s : PointSet α) : Nat := s.order.size

/-- The first entry of a row. -/
def first (s : PointSet α) (i : Nat) : α := firstOf s.points i

def distance (s : PointSet α) (i j : Nat) : α :=
  match s.points.rows[i]?, s.points.rows[j]? with
  | some x, some y => maxDistance x y
  | _, _ => 0

/-- A stretch of the order around a row: the rows from position `left` to the one before `right` have
been visited. -/
structure Cursor where
  left : Nat
  right : Nat
  deriving Repr, DecidableEq

/-- The row just left of the stretch, and the gap to it. -/
def leftOf (s : PointSet α) (x : α) (c : Cursor) : Option (Nat × α) :=
  if c.left = 0 then none
  else s.order[c.left - 1]?.map fun j => (j, x - s.first j)

/-- The row just right of the stretch, and the gap to it. -/
def rightOf (s : PointSet α) (x : α) (c : Cursor) : Option (Nat × α) :=
  s.order[c.right]?.map fun j => (j, s.first j - x)

/-- The row to visit next, the gap to it, and the stretch grown by it: the nearer side, the left one
on a tie. -/
def next? (s : PointSet α) (x : α) (c : Cursor) : Option ((Nat × α) × Cursor) :=
  match s.leftOf x c, s.rightOf x c with
  | none, none => none
  | some l, none => some (l, { c with left := c.left - 1 })
  | none, some r => some (r, { c with right := c.right + 1 })
  | some l, some r =>
    if l.2 ≤ r.2 then some (l, { c with left := c.left - 1 })
    else some (r, { c with right := c.right + 1 })

/-- Visits up to `fuel` rows outwards from a stretch, until a visit answers none. -/
@[specialize]
def walkFrom {τ : Type} (s : PointSet α) (x : α) (visit : τ → Nat → α → Option τ) :
    Nat → Cursor → τ → τ
  | 0, _, t => t
  | fuel + 1, c, t =>
    match s.next? x c with
    | none => t
    | some ((j, gap), c) =>
      match visit t j gap with
      | none => t
      | some t => walkFrom s x visit fuel c t

/-- Visits the rows other than `i` by increasing gap between the first entries, until a visit answers
none. -/
@[specialize]
def walk {τ : Type} (s : PointSet α) (i : Nat) (visit : τ → Nat → α → Option τ) (t : τ) : τ :=
  let r := s.rank.getD i 0
  s.walkFrom (s.first i) visit s.size ⟨r, r + 1⟩ t

/-- A distance put into a list in decreasing order. -/
def insertDistance (d : α) : List α → List α
  | [] => [d]
  | x :: xs => if x ≤ d then d :: x :: xs else x :: insertDistance d xs

/-- The `k` smallest distances so far, the largest of them in front, after a visit to row `j`; none
once no further row can be nearer. -/
def visitNearest (s : PointSet α) (i k : Nat) (nearest : List α) (j : Nat) (gap : α) :
    Option (List α) :=
  match nearest with
  | worst :: rest =>
    if nearest.length < k then some (insertDistance (s.distance i j) nearest)
    else if worst ≤ gap then none
    else
      let d := s.distance i j
      some (if d < worst then insertDistance d rest else nearest)
  | [] => some [s.distance i j]

/-- Distance from row `i` to its `k`-th nearest other row: 0 for `k = 0`, infinite if there are fewer
than `k` other rows. -/
def kthNeighborDistance (s : PointSet α) (i k : Nat) : α :=
  if k = 0 then 0
  else
    let nearest := s.walk i (s.visitNearest i k) []
    if nearest.length < k then Scalar.infinity else nearest.headD Scalar.infinity

/-- Number of rows other than `i` that are strictly closer to it than `radius`. -/
def countWithin (s : PointSet α) (i : Nat) (radius : α) : Nat :=
  s.walk i (fun count j gap =>
    if radius ≤ gap then none
    else some (if s.distance i j < radius then count + 1 else count)) 0

end PointSet

end InfoFlow
