import InfoFlow.Proofs.Information.Neighbors
import InfoFlow.Proofs.Program.Except

namespace InfoFlow

/-- What would break off an estimate. The functions of `Guarded` answer these faults where those of
the estimates take a default or stop walking. -/
inductive EstimateFault where
  | outOfBounds
  /-- A label that no group of samples has. -/
  | missingGroup
  /-- An argument of the digamma function other than an integer from 1 on. -/
  | pole
  /-- A walk that goes on when it should have visited all rows. -/
  | endless
  deriving Repr, DecidableEq

namespace Guarded

/-- What is at a position, which has to be there. -/
def entry {β : Type} : Option β → Except EstimateFault β
  | some b => .ok b
  | none => .error .outOfBounds

/-- Writes to a position, which has to be there. -/
def write {β : Type} (values : Array β) (i : Nat) (b : β) : Except EstimateFault (Array β) :=
  if i < values.size then .ok (values.setIfInBounds i b) else .error .outOfBounds

variable {α : Type} [Scalar α]

/-- The first entry of a row; 0 if rows are empty. -/
def firstOf (m : Matrix α) (i : Nat) : Except EstimateFault α :=
  if h : 0 < m.width then return (← entry m.rows[i]?)[0] else return 0

def pointSet (m : Matrix α) : Except EstimateFault (PointSet α) := do
  let keyed ← (List.range m.size).mapM fun i => return (i, ← firstOf m i)
  let order := (keyed.mergeSort fun a b => Scalar.totalLe a.2 b.2).map Prod.fst
  let rank ← order.zipIdx.foldlM (fun rank (i, r) => write rank i r) (Array.replicate m.size 0)
  return ⟨m, order.toArray, rank⟩

def distance (s : PointSet α) (i j : Nat) : Except EstimateFault α := do
  return maxDistance (← entry s.points.rows[i]?) (← entry s.points.rows[j]?)

/-- The row just left of a stretch, if it does not begin with the first one, and the gap to it. -/
def leftOf (s : PointSet α) (x : α) (c : PointSet.Cursor) :
    Except EstimateFault (Option (Nat × α)) :=
  if 0 < c.left then do
    let j ← entry s.order[c.left - 1]?
    return some (j, x - (← firstOf s.points j))
  else return none

/-- The row just right of a stretch, if it does not end with the last one, and the gap to it. -/
def rightOf (s : PointSet α) (x : α) (c : PointSet.Cursor) :
    Except EstimateFault (Option (Nat × α)) :=
  if c.right < s.size then do
    let j ← entry s.order[c.right]?
    return some (j, (← firstOf s.points j) - x)
  else return none

/-- The row to visit next, the gap to it, and the stretch grown by it. -/
def next? (s : PointSet α) (x : α) (c : PointSet.Cursor) :
    Except EstimateFault (Option ((Nat × α) × PointSet.Cursor)) := do
  match ← leftOf s x c, ← rightOf s x c with
  | none, none => return none
  | some l, none => return some (l, { c with left := c.left - 1 })
  | none, some r => return some (r, { c with right := c.right + 1 })
  | some l, some r =>
    if l.2 ≤ r.2 then return some (l, { c with left := c.left - 1 })
    else return some (r, { c with right := c.right + 1 })

/-- Visits rows outwards from a stretch until a visit answers none or all have been visited, which takes no
more than `fuel` steps. -/
def walkFrom {τ : Type} (s : PointSet α) (x : α)
    (visit : τ → Nat → α → Except EstimateFault (Option τ)) :
    Nat → PointSet.Cursor → τ → Except EstimateFault τ
  | 0, _, _ => .error .endless
  | fuel + 1, c, t => do
    match ← next? s x c with
    | none => return t
    | some ((j, gap), c) =>
      match ← visit t j gap with
      | none => return t
      | some t => walkFrom s x visit fuel c t

def walk {τ : Type} (s : PointSet α) (i : Nat)
    (visit : τ → Nat → α → Except EstimateFault (Option τ)) (t : τ) : Except EstimateFault τ := do
  let r ← entry s.rank[i]?
  walkFrom s (← firstOf s.points i) visit s.size ⟨r, r + 1⟩ t

def visitNearest (s : PointSet α) (i k : Nat) (nearest : List α) (j : Nat) (gap : α) :
    Except EstimateFault (Option (List α)) :=
  match nearest with
  | worst :: rest =>
    if nearest.length < k then return some (PointSet.insertDistance (← distance s i j) nearest)
    else if worst ≤ gap then return none
    else do
      let d ← distance s i j
      return some (if d < worst then PointSet.insertDistance d rest else nearest)
  | [] => return some [← distance s i j]

def kthNeighborDistance (s : PointSet α) (i k : Nat) : Except EstimateFault α :=
  if k = 0 then return 0
  else do
    let nearest ← walk s i (visitNearest s i k) []
    return if nearest.length < k then Scalar.infinity else nearest.headD Scalar.infinity

def countWithin (s : PointSet α) (i : Nat) (radius : α) : Except EstimateFault Nat :=
  walk s i (fun count j gap =>
    if radius ≤ gap then return none
    else return some (if (← distance s i j) < radius then count + 1 else count)) 0

theorem foldlM_write_eq {β : Type} {updates : List (Nat × β)} {values : Array β}
    (h : ∀ update ∈ updates, update.1 < values.size) :
    updates.foldlM (fun values (i, b) => write values i b) values =
      .ok (Updates.run updates values) := by
  apply Except.foldlM_eq_ok_foldl (I := fun written => written.size = values.size) rfl
  intro written update hsize hupdate
  have hlt : update.1 < written.size := hsize ▸ h update hupdate
  exact ⟨if_pos hlt, Array.size_setIfInBounds.trans hsize⟩

section Searches

variable {m : Matrix α} {s : PointSet α} {c : PointSet.Cursor} {i j k : Nat}

theorem firstOf_eq (hi : i < m.size) : firstOf m i = .ok (PointSet.firstOf m i) := by
  have hrow : m.rows[i]? = some m.rows[i] := Array.getElem?_eq_getElem hi
  unfold firstOf PointSet.firstOf
  split
  · rw [hrow]
    rfl
  · rfl

theorem size_rank_ofMatrix (m : Matrix α) : (PointSet.ofMatrix m).rank.size = m.size :=
  (Updates.size_run _ _).trans Array.size_replicate

/-- Building the order looks up the rows of the matrix only, and ranks them only. -/
theorem pointSet_eq (m : Matrix α) : pointSet m = .ok (PointSet.ofMatrix m) := by
  have hkeys : (List.range m.size).mapM (fun i => return (i, ← firstOf m i)) =
      .ok ((List.range m.size).map fun i => (i, PointSet.firstOf m i)) := by
    apply Except.mapM_eq_ok_map
    intro i hi
    rw [firstOf_eq (List.mem_range.mp hi)]
    rfl
  have hsort : (((List.range m.size).map fun i => (i, PointSet.firstOf m i)).mergeSort
      fun a b => Scalar.totalLe a.2 b.2).map Prod.fst = (PointSet.ofMatrix m).order.toList := by
    rw [← List.map_mergeSort (r := fun i j =>
      Scalar.totalLe (PointSet.firstOf m i) (PointSet.firstOf m j)) (by simp), List.map_map]
    exact List.map_id _
  have hranks : (PointSet.ofMatrix m).order.toList.zipIdx.foldlM
      (fun rank (i, r) => write rank i r) (Array.replicate m.size 0) = .ok (PointSet.ofMatrix m).rank := by
    apply foldlM_write_eq
    rintro ⟨i, r⟩ hupdate
    have hmem := List.fst_mem_of_mem_zipIdx hupdate
    rw [Array.size_replicate]
    exact List.mem_range.mp ((PointSet.ofMatrix_wellFormed m).order_perm.subset hmem)
  unfold pointSet
  rw [hkeys, Except.ok_bind]
  dsimp only
  rw [hsort, hranks]
  rfl

variable (hs : s.WellFormed)

include hs

theorem distance_eq (hi : i < s.size) (hj : j < s.size) :
    distance s i j = .ok (s.distance i j) := by
  rw [hs.size_eq] at hi hj
  unfold distance PointSet.distance
  rw [Array.getElem?_eq_getElem hi, Array.getElem?_eq_getElem hj]
  rfl

theorem leftOf_eq (x : α) (hc : c.Within s) : leftOf s x c = .ok (s.leftOf x c) := by
  unfold leftOf PointSet.leftOf
  by_cases hpos : 0 < c.left
  · have hlt : c.left - 1 < s.order.size := by
      have hle := hc.left_le.trans hc.right_le
      unfold PointSet.size at hle
      omega
    have hj := Array.getElem?_eq_getElem hlt
    rw [if_pos hpos, if_neg hpos.ne', hj]
    dsimp only [entry, bind, Except.bind]
    rw [firstOf_eq (hs.size_eq ▸ hs.lt_size hj)]
    rfl
  · rw [if_neg hpos, if_pos (Nat.eq_zero_of_not_pos hpos)]
    rfl

theorem rightOf_eq (x : α) (c : PointSet.Cursor) : rightOf s x c = .ok (s.rightOf x c) := by
  unfold rightOf PointSet.rightOf
  by_cases hlt : c.right < s.size
  · have hj := Array.getElem?_eq_getElem hlt
    rw [if_pos hlt, hj]
    dsimp only [entry, bind, Except.bind]
    rw [firstOf_eq (hs.size_eq ▸ hs.lt_size hj)]
    rfl
  · rw [if_neg hlt, Array.getElem?_eq_none (not_lt.mp hlt)]
    rfl

theorem next?_eq (x : α) (hc : c.Within s) : next? s x c = .ok (s.next? x c) := by
  unfold next? PointSet.next?
  rw [leftOf_eq hs x hc, rightOf_eq hs x c]
  cases s.leftOf x c with
  | none => cases s.rightOf x c <;> rfl
  | some l =>
    cases s.rightOf x c with
    | none => rfl
    | some r =>
      dsimp only [bind, Except.bind]
      split <;> rfl

variable {τ : Type} {visit : τ → Nat → α → Option τ}
  {guardedVisit : τ → Nat → α → Except EstimateFault (Option τ)}
  (hvisit : ∀ t j gap, j < s.size → guardedVisit t j gap = .ok (visit t j gap))

include hvisit

/-- The fuel is enough: with every step but the last, one row more has been visited. -/
theorem walkFrom_eq (x : α) {fuel : Nat} (hfuel : s.size ≤ fuel + c.visited) (hc : c.Around s i)
    (t : τ) : walkFrom s x guardedVisit fuel c t = .ok (s.walkFrom x visit fuel c t) := by
  induction fuel generalizing c t with
  | zero =>
    have hlt := hc.visited_lt
    omega
  | succ fuel ih =>
    unfold walkFrom PointSet.walkFrom
    rw [next?_eq hs x hc.within]
    cases hnext : s.next? x c with
    | none => rfl
    | some step =>
      obtain ⟨⟨j, gap⟩, c'⟩ := step
      obtain ⟨hc', hvisited, hj, _⟩ := hc.next hs hnext
      rw [Except.ok_bind]
      dsimp only
      rw [hvisit t j gap hj]
      cases visit t j gap with
      | none => rfl
      | some t' => exact ih (by omega) hc' t'

variable (hrank : s.rank.size = s.size)

include hrank

theorem walk_eq (hi : i < s.size) (t : τ) : walk s i guardedVisit t = .ok (s.walk i visit t) := by
  have hat : s.rank[i]? = some (s.rank.getD i 0) := by
    have hlt : i < s.rank.size := hrank ▸ hi
    rw [Array.getD_eq_getD_getElem?, Array.getElem?_eq_getElem hlt]
    rfl
  have hfuel : s.size ≤
      s.size + PointSet.Cursor.visited ⟨s.rank.getD i 0, s.rank.getD i 0 + 1⟩ := Nat.le_add_right _ _
  unfold walk PointSet.walk
  rw [hat]
  dsimp only [entry, bind, Except.bind]
  rw [firstOf_eq (hs.size_eq ▸ hi)]
  exact walkFrom_eq hs hvisit (s.first i) hfuel (PointSet.Cursor.Around.start hs hi) t

end Searches

section Queries

variable {s : PointSet α} {i : Nat} (hs : s.WellFormed) (hrank : s.rank.size = s.size) (hi : i < s.size)

include hs hrank hi

theorem kthNeighborDistance_eq (k : Nat) :
    kthNeighborDistance s i k = .ok (s.kthNeighborDistance i k) := by
  have hvisit (nearest : List α) (j : Nat) (gap : α) (hj : j < s.size) :
      visitNearest s i k nearest j gap = .ok (s.visitNearest i k nearest j gap) := by
    unfold visitNearest PointSet.visitNearest
    rw [distance_eq hs hi hj]
    cases nearest with
    | nil => rfl
    | cons worst rest =>
      dsimp only
      split
      · rfl
      · split <;> rfl
  unfold kthNeighborDistance PointSet.kthNeighborDistance
  split
  · rfl
  · rw [walk_eq hs hvisit hrank hi]
    rfl

theorem countWithin_eq (radius : α) : countWithin s i radius = .ok (s.countWithin i radius) := by
  unfold countWithin PointSet.countWithin
  apply walk_eq hs _ hrank hi
  intro count j gap hj
  rw [distance_eq hs hi hj]
  split <;> rfl

end Queries

section Points

variable {m : Matrix α} {i : Nat}

/-- The rows of a matrix are searched within bounds. -/
theorem kthNeighborDistance_eq_ok (hi : i < m.size) (k : Nat) :
    kthNeighborDistance (.ofMatrix m) i k = .ok ((PointSet.ofMatrix m).kthNeighborDistance i k) := by
  have hs := PointSet.ofMatrix_wellFormed m
  exact kthNeighborDistance_eq hs ((size_rank_ofMatrix m).trans hs.size_eq.symm)
    (hi.trans_eq hs.size_eq.symm) k

theorem countWithin_eq_ok (hi : i < m.size) (radius : α) :
    countWithin (.ofMatrix m) i radius = .ok ((PointSet.ofMatrix m).countWithin i radius) := by
  have hs := PointSet.ofMatrix_wellFormed m
  exact countWithin_eq hs ((size_rank_ofMatrix m).trans hs.size_eq.symm)
    (hi.trans_eq hs.size_eq.symm) radius

end Points

end Guarded

end InfoFlow
