import InfoFlow.Proofs.Inference.Attempts
import InfoFlow.Proofs.Inference.Frame
import InfoFlow.Proofs.Scalar.Quotients

namespace InfoFlow

variable {α σ : Type} [Scalar α] [RandomWords σ]

namespace Chain

/-- The divergence that some terms at node `i` are, as it is reported. -/
def report? (m : Model α) (c : Chain α) (i : Nat) (t : Except EvaluationError (Terms α)) :
    Option Warning :=
  (divergence? t).map (⟨c.id, c.iteration, (m.nodes[i]?.map Node.name).getD "", ·⟩)

/-- The divergences at the moves of element `e` of node `i` to some values. -/
def divergencesAt (m : Model α) (c : Chain α) (i e : Nat) (values : List α) : List Warning :=
  values.flatMap fun x => (c.report? m i (c.localTerms m i e (c.state.update i e x))).toList

/-- The values that a draw of a category weighs. -/
def categoryValues (m : Model α) (c : Chain α) (i e : Nat) : List α :=
  match m.resolve i e c.state with
  | .ok (.categorical weights) => (List.range weights.size).map Scalar.ofNat
  | _ => []

/-- A move along with the values that it weighs. -/
def weighedMove (m : Model α) (c : Chain α) (i e : Nat) (step : Step) :
    Random σ (Option (Bool × Chain α) × List α) := do
  let propose (x : α) : Random σ (Option (Bool × Chain α) × List α) :=
    return (some (← c.metropolis m i e x), [x])
  let old := c.state.value i e
  let scale := c.scales.getD i 1
  match step with
  | .fixed => return (none, [])
  | .category => return (some (← c.gibbs m i e), c.categoryValues m i e)
  | .flip => propose (1 - old)
  | .wholeWalk => propose (old + (← wholeStep scale))
  | .walk => propose (old + scale * (← Random.normal))

variable {m : Model α} {c : Chain α} {i e : Nat} {x : α}

theorem fst_weighedMove (m : Model α) (c : Chain α) (i e : Nat) (step : Step) :
    Prod.fst <$> (c.weighedMove m i e step : Random σ _) = c.move m i e step := by
  unfold weighedMove move
  cases step <;> simp [map_bind]

section Moves

/-- A move keeps the scales and the count of moves, and reports the divergences at what it weighs. -/
structure Reports (m : Model α) (c : Chain α) (i e : Nat) (values : List α) (d : Chain α) : Prop where
  scales_eq : d.scales = c.scales
  moves_eq : d.moves = c.moves
  isReported {log : List Warning} : IsReported log c.divergences c.warnings →
    IsReported (log ++ c.divergencesAt m i e values) d.divergences d.warnings

omit [Scalar α] in
theorem Frames.scales_moves_eq {moved : Bool × Chain α} (h : Frames m i e c moved) :
    moved.2.scales = c.scales ∧ moved.2.moves = c.moves := by
  cases hmoved : moved.1 with
  | false =>
    rw [h.refused hmoved]
    exact ⟨rfl, rfl⟩
  | true =>
    rw [(h.accepted hmoved).others_eq]
    exact ⟨rfl, rfl⟩

variable {log : List Warning}

theorem countDivergence_isReported (m : Model α) (i : Nat)
    (hlog : IsReported log c.divergences c.warnings) (t : Except EvaluationError (Terms α)) :
    IsReported (log ++ (c.report? m i t).toList) (c.countDivergence m i t).divergences
      (c.countDivergence m i t).warnings := by
  unfold report? countDivergence
  cases divergence? t with
  | none => simpa using hlog
  | some reason => exact hlog.append _

/-- Candidates that cannot be weighed are reported in their order. -/
theorem countDivergences_isReported (m : Model α) (i : Nat)
    (hlog : IsReported log c.divergences c.warnings) (candidates : List (Candidate α)) :
    IsReported (log ++ candidates.flatMap fun candidate => (c.report? m i candidate.2).toList)
      (c.countDivergences m i candidates).divergences
      (c.countDivergences m i candidates).warnings := by
  induction candidates generalizing c log with
  | nil =>
    rw [List.flatMap_nil, List.append_nil]
    exact hlog
  | cons candidate candidates ih =>
    have hsame (t : Except EvaluationError (Terms α)) :
        (c.countDivergence m i candidate.2).report? m i t = c.report? m i t := by
      unfold countDivergence
      split <;> rfl
    have hrest := ih (countDivergence_isReported m i hlog candidate.2)
    simp only [hsame] at hrest
    rw [List.flatMap_cons, ← List.append_assoc]
    exact hrest

theorem metropolis_isReported (hlog : IsReported log c.divergences c.warnings) (x : α) :
    (c.metropolis m i e x : Random σ _).Always fun moved =>
      IsReported (log ++ c.divergencesAt m i e [x]) moved.2.divergences moved.2.warnings := by
  have hcounted := countDivergence_isReported m i hlog
    (c.localTerms m i e (c.state.update i e x))
  unfold divergencesAt
  rw [List.flatMap_singleton]
  unfold countDivergence at hcounted
  unfold metropolis
  simp only
  split
  · rename_i hnone _
    rw [hnone] at hcounted
    refine Random.Always.bind_any fun isAccepted => ?_
    cases isAccepted with
    | true => exact Random.Always.of_pure hcounted
    | false => exact Random.Always.of_pure hcounted
  · rename_i hsome
    rw [hsome] at hcounted
    exact Random.Always.of_pure hcounted
  · rename_i hnone _
    rw [hnone] at hcounted
    exact Random.Always.of_pure hcounted

theorem commitCategory_divergences (candidate : Option (Candidate α)) :
    (c.commitCategory m i e candidate).2.divergences = c.divergences ∧
      (c.commitCategory m i e candidate).2.warnings = c.warnings := by
  unfold commitCategory
  split
  · split <;> exact ⟨rfl, rfl⟩
  · exact ⟨rfl, rfl⟩

theorem gibbs_isReported (hlog : IsReported log c.divergences c.warnings) :
    (c.gibbs m i e : Random σ _).Always fun moved =>
      IsReported (log ++ c.divergencesAt m i e (c.categoryValues m i e)) moved.2.divergences
        moved.2.warnings := by
  unfold gibbs
  split
  · rename_i weights hresolve
    have hvalues : c.categoryValues m i e = (List.range weights.size).map Scalar.ofNat := by
      unfold categoryValues
      rw [hresolve]
    have hcounted := countDivergences_isReported m i hlog (c.candidates m i e weights.size)
    have hlisted : ((c.candidates m i e weights.size).flatMap fun candidate =>
        (c.report? m i candidate.2).toList) = c.divergencesAt m i e (c.categoryValues m i e) := by
      unfold candidates divergencesAt
      rw [hvalues, List.flatMap_map, List.flatMap_map]
    rw [hlisted] at hcounted
    unfold drawCategory
    simp only
    split
    · exact Random.Always.of_pure hcounted
    · refine Random.Always.bind_any fun u => Random.Always.of_pure ?_
      rw [(commitCategory_divergences _).1, (commitCategory_divergences _).2]
      exact hcounted
  · rename_i hother
    have hvalues : c.categoryValues m i e = [] := by
      unfold categoryValues
      split
      · rename_i weights hresolve
        exact absurd hresolve (hother weights)
      · rfl
    rw [hvalues, divergencesAt, List.flatMap_nil, List.append_nil]
    exact Random.Always.of_pure hlog

theorem metropolis_reports (m : Model α) (c : Chain α) (i e : Nat) (x : α) :
    (c.metropolis m i e x : Random σ _).Always fun moved => Reports m c i e [x] moved.2 := by
  intro s
  obtain ⟨hscales, hmoves⟩ := (metropolis_frames m c i e x s).scales_moves_eq
  exact ⟨hscales, hmoves, fun hlog => metropolis_isReported hlog x s⟩

theorem gibbs_reports (m : Model α) (c : Chain α) (i e : Nat) :
    (c.gibbs m i e : Random σ _).Always fun moved =>
      Reports m c i e (c.categoryValues m i e) moved.2 := by
  intro s
  obtain ⟨hscales, hmoves⟩ := (gibbs_frames m c i e s).scales_moves_eq
  exact ⟨hscales, hmoves, fun hlog => gibbs_isReported hlog s⟩

/-- Elements of a node that is never moved weigh nothing; others make a move. -/
theorem weighedMove_reports (m : Model α) (c : Chain α) (i e : Nat) (step : Step) :
    (c.weighedMove m i e step : Random σ _).Always fun weighed =>
      step = .fixed ∧ weighed = (none, []) ∨
        step ≠ .fixed ∧ ∃ isAccepted d, weighed.1 = some (isAccepted, d) ∧
          Reports m c i e weighed.2 d := by
  have hpropose (x : α) : (do return (some (← c.metropolis m i e x), [x]) : Random σ _).Always
      fun weighed => ∃ isAccepted d, weighed.1 = some (isAccepted, d) ∧
        Reports m c i e weighed.2 d :=
    Random.Always.bind (metropolis_reports m c i e x) fun moved hmoved =>
      Random.Always.of_pure ⟨moved.1, moved.2, rfl, hmoved⟩
  unfold weighedMove
  cases step with
  | fixed => exact Random.Always.of_pure (.inl ⟨rfl, rfl⟩)
  | category =>
    refine Random.Always.bind (gibbs_reports m c i e) fun moved hmoved => ?_
    exact Random.Always.of_pure (.inr ⟨nofun, moved.1, moved.2, rfl, hmoved⟩)
  | flip => exact (hpropose _).mono fun weighed h => .inr ⟨nofun, h⟩
  | wholeWalk =>
    exact Random.Always.bind_any fun step => (hpropose _).mono fun weighed h => .inr ⟨nofun, h⟩
  | walk =>
    exact Random.Always.bind_any fun z => (hpropose _).mono fun weighed h => .inr ⟨nofun, h⟩

end Moves

/-- What a chain records where it is. -/
def draw (c : Chain α) : Draw α := ⟨c.state, c.outputs⟩

end Chain

/-- A chain with what has happened to it: all divergences, and whether each move after tuning was
accepted. -/
structure Chronicle (α : Type) where
  chain : Chain α
  divergences : List Warning
  verdicts : List Bool

namespace Chronicle

open Chain

/-- Updates one element, and notes what comes of it. -/
def visit (m : Model α) (isTuning : Bool) (h : Chronicle α) (i e : Nat) (step : Step) :
    Random σ (Chronicle α) := do
  let (moved, values) ← h.chain.weighedMove m i e step
  let divergences := h.divergences ++ h.chain.divergencesAt m i e values
  match moved with
  | none => return { h with divergences := divergences }
  | some (isAccepted, c) => return {
      chain := c.count i isTuning isAccepted
      divergences := divergences
      verdicts := if isTuning then h.verdicts else h.verdicts ++ [isAccepted]
    }

/-- Updates every element of every node once. -/
def sweep (m : Model α) (isTuning : Bool) (h : Chronicle α) : Random σ (Chronicle α) :=
  (sites m).foldlM (fun h (i, e, step) => h.visit m isTuning i e step)
    { h with chain := { h.chain with iteration := h.chain.iteration + 1 } }

/-- One iteration: a sweep, and an adaptation at the end of every full window while tuning. -/
def iterate (m : Model α) (tuning iteration : Nat) (h : Chronicle α) : Random σ (Chronicle α) := do
  let h ← h.sweep m (iteration < tuning)
  return if iteration < tuning ∧ (iteration + 1) % tuneInterval = 0
    then { h with chain := h.chain.tune } else h

/-- The chronicle after `n` iterations of a chain, and the stream then. -/
def history (m : Model α) (tuning : Nat) (start : Chain α) (s : σ) : Nat → Chronicle α × σ
  | 0 => (⟨start, [], []⟩, s)
  | n + 1 => ((history m tuning start s n).1.iterate m tuning n).run (history m tuning start s n).2

variable {m : Model α} {tuning : Nat}

section Erasure

/-- Noting what comes of a move has no part in it. -/
theorem chain_visit (m : Model α) (isTuning : Bool) (h : Chronicle α) (i e : Nat) (step : Step) :
    chain <$> (h.visit m isTuning i e step : Random σ _) =
      h.chain.visit m isTuning i e step := by
  unfold visit Chain.visit
  rw [← fst_weighedMove, map_bind, bind_map_left]
  refine bind_congr fun weighed => ?_
  obtain ⟨moved, values⟩ := weighed
  cases moved <;> rfl

theorem chain_visits (m : Model α) (isTuning : Bool) (h : Chronicle α)
    (visited : List (Nat × Nat × Step)) :
    chain <$> (visited.foldlM (fun h (i, e, step) => h.visit m isTuning i e step) h : Random σ _) =
      visited.foldlM (fun c (i, e, step) => c.visit m isTuning i e step) h.chain := by
  induction visited generalizing h with
  | nil => rfl
  | cons site visited ih =>
    obtain ⟨i, e, step⟩ := site
    rw [List.foldlM_cons, List.foldlM_cons, map_bind]
    dsimp only
    rw [← chain_visit, bind_map_left]
    exact bind_congr ih

theorem chain_sweep (m : Model α) (isTuning : Bool) (h : Chronicle α) :
    chain <$> (h.sweep m isTuning : Random σ _) = h.chain.sweep m isTuning :=
  chain_visits m isTuning _ (sites m)

/-- After tuning, each iteration records a draw where the chain is then. -/
theorem iterate_eq (m : Model α) (tuning iteration : Nat) (h : Chronicle α)
    (draws : List (Draw α)) :
    (h.chain.iterate m tuning iteration draws : Random σ _) =
      (fun next => (next.chain, if iteration < tuning then draws else next.chain.draw :: draws)) <$>
        h.iterate m tuning iteration := by
  unfold iterate Chain.iterate
  dsimp only
  rw [← chain_sweep, map_bind, bind_map_left]
  refine bind_congr fun next => ?_
  by_cases htuning : iteration < tuning
  · by_cases hwindow : (iteration + 1) % tuneInterval = 0
    · simp [htuning, hwindow]
    · simp [htuning, hwindow]
  · simp [htuning, draw]

/-- The last iteration of a run. -/
theorem run_succ (m : Model α) (tuning n iteration : Nat) (c : Chain α) (draws : List (Draw α)) :
    (c.run m tuning (n + 1) iteration draws : Random σ _) =
      c.run m tuning n iteration draws >>= fun next =>
        next.1.iterate m tuning (iteration + n) next.2 := by
  induction n generalizing iteration c draws with
  | zero => simp [run]
  | succ n ih =>
    rw [run, run, bind_assoc]
    refine bind_congr fun next => ?_
    obtain ⟨d, draws⟩ := next
    dsimp only
    rw [ih, Nat.add_right_comm]
    rfl

variable (m tuning) (start : Chain α) (s : σ)

/-- The draws of the iterations after tuning, among the first `n`. -/
def drawsOf (n : Nat) : List (Draw α) :=
  (List.range (n - tuning)).map fun r =>
    (history m tuning start s (tuning + (r + 1))).1.chain.draw

theorem drawsOf_succ (n : Nat) : drawsOf m tuning start s (n + 1) =
    if n < tuning then drawsOf m tuning start s n
    else drawsOf m tuning start s n ++ [(history m tuning start s (n + 1)).1.chain.draw] := by
  unfold drawsOf
  by_cases htuning : n < tuning
  · have hnone : n + 1 - tuning = n - tuning := by omega
    rw [if_pos htuning, hnone]
  · obtain ⟨r, rfl⟩ := Nat.exists_eq_add_of_le (not_lt.mp htuning)
    have hnext : tuning + r + 1 - tuning = r + 1 := by omega
    rw [if_neg htuning, hnext, Nat.add_sub_cancel_left, List.range_succ, List.map_append]
    rfl

/-- The run of a chain ends where its history does, with the draws of its iterations after tuning. -/
theorem run_eq_history (n : Nat) : (start.run m tuning n 0 [] : Random σ _).run s =
    (((history m tuning start s n).1.chain, (drawsOf m tuning start s n).reverse),
      (history m tuning start s n).2) := by
  induction n with
  | zero =>
    have hnone : drawsOf m tuning start s 0 = [] := by simp [drawsOf]
    rw [hnone]
    rfl
  | succ n ih =>
    rw [run_succ, Random.run_bind_eq, ih, Nat.zero_add, iterate_eq, drawsOf_succ]
    refine Prod.ext (Prod.ext rfl ?_) rfl
    by_cases htuning : n < tuning
    · rw [if_pos htuning]
      exact if_pos htuning
    · rw [if_neg htuning, List.reverse_append]
      exact if_neg htuning

end Erasure

section Counts

/-- The counters and warnings of the chain tell what has been noted. -/
structure IsCounted (h : Chronicle α) : Prop where
  moves_eq : h.chain.moves = ⟨h.verdicts.count true, h.verdicts.length⟩
  isReported : IsReported h.divergences h.chain.divergences h.chain.warnings

/-- What `moves` moves leave as it was, and what they add. -/
structure Advances (isTuning : Bool) (moves : Nat) (h next : Chronicle α) : Prop where
  scales_eq : next.chain.scales = h.chain.scales
  length_verdicts : next.verdicts.length = h.verdicts.length + if isTuning then 0 else moves
  isCounted : h.IsCounted → next.IsCounted

variable {isTuning : Bool} {h next last : Chronicle α} {moves : Nat}

omit [Scalar α] in
theorem Advances.refl (isTuning : Bool) (h : Chronicle α) : Advances isTuning 0 h h :=
  ⟨rfl, by simp, id⟩

omit [Scalar α] in
theorem Advances.trans {moves' : Nat} (hfirst : Advances isTuning moves h next)
    (hrest : Advances isTuning moves' next last) : Advances isTuning (moves + moves') h last where
  scales_eq := hrest.scales_eq.trans hfirst.scales_eq
  length_verdicts := by
    rw [hrest.length_verdicts, hfirst.length_verdicts]
    split <;> omega
  isCounted := hrest.isCounted ∘ hfirst.isCounted

/-- A visit to an element makes one move, unless its node is never moved. -/
theorem visit_advances (m : Model α) (isTuning : Bool) (h : Chronicle α) (i e : Nat) (step : Step) :
    (h.visit m isTuning i e step : Random σ _).Always
      (Advances isTuning (if step = .fixed then 0 else 1) h) := by
  unfold visit
  refine Random.Always.bind (weighedMove_reports m h.chain i e step) fun weighed hweighed => ?_
  obtain ⟨moved, values⟩ := weighed
  rcases hweighed with ⟨hfixed, heq⟩ | ⟨hmoves, isAccepted, d, heq, hreports⟩
  · cases heq
    rw [if_pos hfixed]
    refine Random.Always.of_pure ⟨rfl, by simp, fun hcounted => ⟨hcounted.moves_eq, ?_⟩⟩
    simpa [divergencesAt] using hcounted.isReported
  · cases heq
    rw [if_neg hmoves]
    refine Random.Always.of_pure ⟨hreports.scales_eq, ?_, fun hcounted => ⟨?_, ?_⟩⟩
    · cases isTuning <;> simp
    · have hcount : d.moves = ⟨h.verdicts.count true, h.verdicts.length⟩ :=
        hreports.moves_eq.trans hcounted.moves_eq
      cases isTuning with
      | true => exact hcount
      | false => cases isAccepted <;> simp [count, MoveCount.add, hcount]
    · exact hreports.isReported hcounted.isReported

theorem visits_advance (m : Model α) (isTuning : Bool) (h : Chronicle α)
    (visited : List (Nat × Nat × Step)) :
    (visited.foldlM (fun h (i, e, step) => h.visit m isTuning i e step) h : Random σ _).Always
      (Advances isTuning (visited.countP fun site => site.2.2 ≠ .fixed) h) := by
  induction visited generalizing h with
  | nil => exact Random.Always.of_pure (.refl isTuning h)
  | cons site visited ih =>
    obtain ⟨i, e, step⟩ := site
    rw [List.foldlM_cons]
    refine Random.Always.bind (visit_advances m isTuning h i e step) fun next hnext => ?_
    refine (ih next).mono fun last hlast => ?_
    have hmoves := hnext.trans hlast
    rw [List.countP_cons, Nat.add_comm]
    by_cases hfixed : step = .fixed
    · simpa [hfixed] using hmoves
    · simpa [hfixed] using hmoves

theorem sweep_advances (m : Model α) (isTuning : Bool) (h : Chronicle α) :
    (h.sweep m isTuning : Random σ _).Always
      (Advances isTuning ((sites m).countP fun site => site.2.2 ≠ .fixed) h) := by
  refine (visits_advance m isTuning _ (sites m)).mono fun next hnext => ?_
  exact ⟨hnext.scales_eq, hnext.length_verdicts,
    fun hcounted => hnext.isCounted ⟨hcounted.moves_eq, hcounted.isReported⟩⟩

/-- Sweeps leave the scales alone. -/
theorem scales_sweep (m : Model α) (isTuning : Bool) (c : Chain α) :
    (c.sweep m isTuning : Random σ _).Always fun next => next.scales = c.scales := by
  rw [← chain_sweep m isTuning ⟨c, [], []⟩]
  exact Random.Always.map (sweep_advances m isTuning _) fun next hnext => hnext.scales_eq

end Counts

end Chronicle

section Widths

/-- The number of elements of all nodes that are not constant. -/
def Model.movedWidth (m : Model α) : Nat :=
  ((m.nodes.toList.filter fun node => node.family ≠ .constant).map Node.width).sum

theorem Step.ofFamily_eq_fixed_iff (f : Family) : Step.ofFamily f = .fixed ↔ f = .constant := by
  cases f <;> decide

theorem Program.step_of_compile {p : Program α} {m : Model α} (hm : p.compile = .ok m)
    {node : Node α} (hnode : node ∈ m.nodes.toList) : node.step = Step.ofFamily node.family := by
  obtain ⟨parents, order, observations, _, hparents, horder, _, rfl⟩ := Program.compile_eq hm
  obtain ⟨i, hi⟩ := List.mem_iff_getElem?.mp hnode
  rw [Array.getElem?_toList] at hi
  obtain ⟨d, v, role, _, _, rfl⟩ := Program.model_node_eq hparents horder hi
  rfl

omit [Scalar α] in
/-- The elements of some nodes that are moved, as a sweep lists them. -/
theorem Chain.countP_sites (nodes : List (Node α)) (k : Nat) :
    (((nodes.zipIdx k).flatMap fun (node, i) =>
        (List.range node.width).map fun e => (i, e, node.step)).countP
      fun site => site.2.2 ≠ .fixed) =
        ((nodes.filter fun node => node.step ≠ .fixed).map Node.width).sum := by
  induction nodes generalizing k with
  | nil => rfl
  | cons node nodes ih =>
    rw [List.zipIdx_cons, List.flatMap_cons, List.countP_append, ih]
    by_cases hfixed : node.step = .fixed
    · simp [hfixed]
    · simp [hfixed, Function.comp_def]

/-- A sweep makes a move for every element that is not constant. -/
theorem Program.countP_sites {p : Program α} {m : Model α} (hm : p.compile = .ok m) :
    ((Chain.sites m).countP fun site => site.2.2 ≠ .fixed) = m.movedWidth := by
  refine (Chain.countP_sites m.nodes.toList 0).trans ?_
  unfold Model.movedWidth
  congr 2
  refine List.filter_congr fun node hnode => ?_
  rw [step_of_compile hm hnode, decide_eq_decide, ne_eq, ne_eq, Step.ofFamily_eq_fixed_iff]

end Widths

section Scales

/-- Arithmetic in which the limits of the step scales are on both sides of 1. -/
class LawfulScales (α : Type) [Scalar α] : Prop where
  minScale_le_one : (Chain.minScale : α) ≤ 1
  one_le_maxScale : (1 : α) ≤ Chain.maxScale

instance : LawfulScales Exact where
  minScale_le_one := by
    rw [Chain.minScale, Exact.ofScientific_eq, Exact.one_eq, Exact.real_le]
    norm_num
  one_le_maxScale := by
    rw [Chain.maxScale, Exact.ofScientific_eq, Exact.one_eq, Exact.real_le]
    norm_num

instance : LawfulScales Float where
  minScale_le_one := by
    rw [Double.le_iff]
    rfl
  one_le_maxScale := by
    rw [Double.le_iff]
    rfl

namespace Chain

/-- The step scales of all nodes are between their limits. -/
def ScalesWithin (c : Chain α) : Prop := ∀ scale ∈ c.scales, minScale ≤ scale ∧ scale ≤ maxScale

variable [LawfulOrder α] [LawfulBounds α] [LawfulScales α]

/-- An adaptation cuts the scale off at the limits, whatever it has been and whatever was accepted. -/
theorem tuned_within (scale acceptance : α) :
    minScale ≤ tuned scale acceptance ∧ tuned scale acceptance ≤ maxScale := by
  have hnumbers := LawfulBounds.isNaN_of_le (LawfulScales.minScale_le_one (α := α))
  have hlimits := LawfulBounds.isNaN_of_le (LawfulScales.one_le_maxScale (α := α))
  exact ⟨Scalar.le_min_max _ (LawfulOrder.le_trans LawfulScales.minScale_le_one
    LawfulScales.one_le_maxScale) hnumbers.1, Scalar.min_le_right _ hlimits.2⟩

theorem ScalesWithin.tune {c : Chain α} (hc : c.ScalesWithin) : c.tune.ScalesWithin := by
  intro scale hscale
  obtain ⟨i, hi, rfl⟩ := Array.getElem_of_mem hscale
  simp only [Chain.tune, Array.getElem_zipWith]
  split
  · exact hc _ (Array.getElem_mem _)
  · exact tuned_within _ _

omit [LawfulOrder α] [LawfulBounds α] in
/-- A chain starts with nothing counted, and with scales of 1. -/
theorem fresh_of_start? {m : Model α} {id : Nat} {state : State α} {c : Chain α}
    (h : start? m id state = some c) :
    (⟨c, [], []⟩ : Chronicle α).IsCounted ∧ c.ScalesWithin := by
  obtain ⟨_, _, _, _, rfl⟩ := start?_eq_some_iff.mp h
  refine ⟨⟨rfl, .nil⟩, fun scale hscale => ?_⟩
  obtain rfl : scale = 1 := (Array.mem_replicate.mp hscale).2
  exact ⟨LawfulScales.minScale_le_one, LawfulScales.one_le_maxScale⟩

end Chain

end Scales

namespace Chronicle

open Chain

/-- What one iteration changes: the scales at most at the end of a full window while tuning, and the
verdicts only after tuning, by one for each element that is not constant. -/
structure Iterates (m : Model α) (tuning iteration : Nat) (h next : Chronicle α) : Prop where
  length_verdicts :
    next.verdicts.length = h.verdicts.length + if iteration < tuning then 0 else m.movedWidth
  scales_eq : ¬ (iteration < tuning ∧ (iteration + 1) % tuneInterval = 0) →
    next.chain.scales = h.chain.scales
  scalesWithin : h.chain.ScalesWithin → next.chain.ScalesWithin
  isCounted : h.IsCounted → next.IsCounted

variable {p : Program α} {m : Model α} [LawfulOrder α] [LawfulBounds α] [LawfulScales α]

theorem iterate_iterates (hm : p.compile = .ok m) (tuning iteration : Nat) (h : Chronicle α) :
    (h.iterate m tuning iteration : Random σ _).Always (Iterates m tuning iteration h) := by
  unfold iterate
  refine Random.Always.bind (sweep_advances m (iteration < tuning) h) fun next hnext => ?_
  rw [Program.countP_sites hm] at hnext
  have hlength := hnext.length_verdicts
  have hwithin (hh : h.chain.ScalesWithin) : next.chain.ScalesWithin := by
    unfold ScalesWithin
    rw [hnext.scales_eq]
    exact hh
  simp only [decide_eq_true_eq] at hlength
  by_cases hwindow : iteration < tuning ∧ (iteration + 1) % tuneInterval = 0
  · rw [if_pos hwindow]
    exact Random.Always.of_pure ⟨hlength, fun hnot => absurd hwindow hnot,
      fun hh => (hwithin hh).tune,
      fun hcounted => ⟨(hnext.isCounted hcounted).moves_eq, (hnext.isCounted hcounted).isReported⟩⟩
  · rw [if_neg hwindow]
    exact Random.Always.of_pure ⟨hlength, fun _ => hnext.scales_eq, hwithin, hnext.isCounted⟩

section History

variable {start : Chain α} (hm : p.compile = .ok m)
include hm

theorem history_iterates (tuning n : Nat) (start : Chain α) (s : σ) :
    Iterates m tuning n (history m tuning start s n).1 (history m tuning start s (n + 1)).1 :=
  iterate_iterates hm tuning n _ _

/-- After `n` iterations, all elements that are not constant have been moved in each iteration after
tuning. -/
theorem length_verdicts_history (tuning n : Nat) (start : Chain α) (s : σ) :
    (history m tuning start s n).1.verdicts.length = (n - tuning) * m.movedWidth := by
  induction n with
  | zero => simp [history]
  | succ n ih =>
    rw [(history_iterates hm tuning n start s).length_verdicts, ih]
    by_cases htuning : n < tuning
    · have hnone : n + 1 - tuning = 0 ∧ n - tuning = 0 := by omega
      rw [if_pos htuning, hnone.1, hnone.2, Nat.add_zero]
    · have hnext : n + 1 - tuning = n - tuning + 1 := by omega
      rw [if_neg htuning, hnext, Nat.add_one_mul]

/-- The scales are those at the end of tuning from there on. -/
theorem scales_history (tuning k : Nat) (start : Chain α) (s : σ) :
    (history m tuning start s (tuning + k)).1.chain.scales =
      (history m tuning start s tuning).1.chain.scales := by
  induction k with
  | zero => rfl
  | succ k ih =>
    refine ((history_iterates hm tuning (tuning + k) start s).scales_eq ?_).trans ih
    exact fun hwindow => absurd hwindow.1 (by omega)

theorem isCounted_history (tuning n : Nat) (s : σ)
    (hstart : (⟨start, [], []⟩ : Chronicle α).IsCounted) :
    (history m tuning start s n).1.IsCounted := by
  induction n with
  | zero => exact hstart
  | succ n ih => exact (history_iterates hm tuning n start s).isCounted ih

theorem scalesWithin_history (tuning n : Nat) (s : σ) (hstart : start.ScalesWithin) :
    (history m tuning start s n).1.chain.ScalesWithin := by
  induction n with
  | zero => exact hstart
  | succ n ih => exact (history_iterates hm tuning n start s).scalesWithin ih

end History

end Chronicle

end InfoFlow
