namespace InfoFlow.Order

/-- A topological sort under way. -/
structure Progress where
  /-- For each node, how many of its parents have not been taken. -/
  waiting : List Nat
  /-- The nodes that can be taken, in increasing order. -/
  ready : List Nat
  /-- The nodes that were taken, one after the other. -/
  taken : List Nat

/-- The children of a node in increasing order, each as often as the node is among its parents. -/
def children (parents : List (List Nat)) (i : Nat) : List Nat :=
  parents.zipIdx.flatMap fun (ps, child) => List.replicate (ps.count i) child

/-- Puts a node among others that are in increasing order, unless it is one of them. -/
def insertNode (i : Nat) : List Nat → List Nat
  | [] => [i]
  | j :: rest =>
    if i < j then i :: j :: rest
    else if i = j then j :: rest
    else j :: insertNode i rest

namespace Progress

/-- Before any node is taken. -/
def start (parents : List (List Nat)) : Progress :=
  let waiting := parents.map List.length
  ⟨waiting, (List.range parents.length).filter fun i => waiting.getD i 0 == 0, []⟩

/-- A node waits for one parent less, and is ready if that was the last one. -/
def release (s : Progress) (child : Nat) : Progress :=
  let left := s.waiting.getD child 0 - 1
  { s with
    waiting := s.waiting.set child left
    ready := if left = 0 then insertNode child s.ready else s.ready }

/-- Takes a node, which leaves others ready. -/
def take (parents : List (List Nat)) (s : Progress) (i : Nat) (ready : List Nat) : Progress :=
  (children parents i).foldl release { s with ready := ready, taken := s.taken ++ [i] }

/-- Takes up to `fuel` nodes, each as the first one that is ready. -/
def run (parents : List (List Nat)) : Nat → Progress → Progress
  | 0, s => s
  | fuel + 1, s =>
    match s.ready with
    | [] => s
    | i :: ready => run parents fuel (s.take parents i ready)

end Progress

/-- All nodes, parents first, or the nodes that cannot be ordered: those that lie on a cycle or
below one. -/
def topological (parents : List (List Nat)) : Except (List Nat) (List Nat) :=
  let s := (Progress.start parents).run parents parents.length
  if s.taken.length < parents.length then
    .error ((List.range parents.length).filter fun i => 0 < s.waiting.getD i 0)
  else .ok s.taken

end InfoFlow.Order
