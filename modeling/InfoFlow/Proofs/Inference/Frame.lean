import InfoFlow.Proofs.Inference.Moves

namespace InfoFlow

namespace Chain

variable {α σ : Type} [Scalar α] [RandomWords σ]

/-- Overwrites an element, and leaves the cached terms as they are. -/
def write (c : Chain α) (i e : Nat) (x : α) : Chain α := { c with state := c.state.update i e x }

/-- Computes the terms that depend on element `e` of node `i` at the state that the chain is in. Where
they cannot be weighed, there are none, and a divergence is counted. -/
def weigh (m : Model α) (c : Chain α) (i e : Nat) : Option (Terms α) × Chain α :=
  match c.localTerms m i e c.state with
  | .error fault => (none, c.diverge m i fault.message)
  | .ok terms =>
    if Scalar.isNaN terms.total || terms.total == Scalar.infinity then
      (none, c.diverge m i ("log density evaluates to " ++ Scalar.text terms.total))
    else (some terms, c)

/-- Proposes a value for element `e` of node `i` by writing it into the state. -/
def metropolisInPlace (m : Model α) (c : Chain α) (i e : Nat) (value : α) :
    Random σ (Bool × Chain α) := do
  let current := c.localTotal m i e
  let old := c.state.value i e
  match (c.write i e value).weigh m i e with
  | (none, c) => return (false, c.write i e old)
  | (some terms, c) =>
    if ← accepts (terms.total - current) then return (true, c.commit m i e c.state terms)
    else return (false, c.write i e old)

/-- Writes categories into the state, one after the other, and computes the terms of each. The last one
stays there. -/
def tryCategories (m : Model α) (i e : Nat) :
    List Nat → Chain α → List (Option (Terms α)) × Chain α
  | [], c => ([], c)
  | k :: ks, c =>
    let (terms, c) := (c.write i e (Scalar.ofNat k)).weigh m i e
    let (rest, c) := tryCategories m i e ks c
    (terms :: rest, c)

/-- Writes category `k` into the state and moves there with its terms; without terms, writes the old
value back. -/
def commitInPlace (m : Model α) (c : Chain α) (i e : Nat) (old : α) (k : Nat) :
    Option (Terms α) → Bool × Chain α
  | some terms =>
    let c := c.write i e (Scalar.ofNat k)
    (true, c.commit m i e c.state terms)
  | none => (false, c.write i e old)

/-- Draws element `e` of a categorical node `i` from its conditional distribution, by writing every
category into the state. -/
def gibbsInPlace (m : Model α) (c : Chain α) (i e : Nat) : Random σ (Bool × Chain α) := do
  match m.resolve i e c.state with
  | .ok (.categorical weights) =>
    let old := c.state.value i e
    let (tried, c) := tryCategories m i e (List.range weights.size) c
    let lnWeights := tried.map fun terms => (terms.map Terms.total).getD (-Scalar.infinity)
    let largest := lnWeights.foldl Scalar.max (-Scalar.infinity)
    if largest == -Scalar.infinity then return (false, c.write i e old)
    let chosen := drawPosition lnWeights largest (← Random.unit)
    return c.commitInPlace m i e old chosen tried[chosen]?.join
  | _ => return (false, c)

variable {m : Model α} {c : Chain α} {i e : Nat} {x y : α} {terms : Terms α}

section InPlace

omit [Scalar α] in
theorem write_write : (c.write i e x).write i e y = c.write i e y := by
  unfold write
  rw [State.update_update]

/-- What has been written into an element is undone by writing back what was there before. -/
theorem write_back {d : Chain α} (hstate : d.state = c.state) :
    (d.write i e x).write i e (c.state.value i e) = d := by
  rw [write_write, ← hstate]
  unfold write
  rw [State.update_value]

/-- The terms that can be weighed. -/
def weighed? (t : Except EvaluationError (Terms α)) : Option (Terms α) :=
  match divergence? t, t with
  | none, .ok terms => some terms
  | _, _ => none

theorem eq_ok_of_weighed? {t : Except EvaluationError (Terms α)} (h : weighed? t = some terms) :
    t = .ok terms := by
  unfold weighed? at h
  split at h
  · cases h
    rfl
  · cases h

/-- A chain with the divergence counted that some terms are. -/
def countDivergence (m : Model α) (c : Chain α) (i : Nat) (t : Except EvaluationError (Terms α)) :
    Chain α :=
  match divergence? t with
  | some reason => c.diverge m i reason
  | none => c

theorem state_countDivergence (t : Except EvaluationError (Terms α)) :
    (c.countDivergence m i t).state = c.state := by
  unfold countDivergence
  split <;> rfl

/-- What is written into the state has no part in counting a divergence. -/
theorem countDivergence_write (t : Except EvaluationError (Terms α)) :
    (c.write i e x).countDivergence m i t = (c.countDivergence m i t).write i e x := by
  unfold countDivergence
  split <;> rfl

/-- Terms depend on the state they are computed at, and on nothing that a divergence or an overwritten
element changes. -/
theorem localTerms_countDivergence_write (t : Except EvaluationError (Terms α)) (state : State α) :
    ((c.countDivergence m i t).write i e x).localTerms m i e state = c.localTerms m i e state := by
  unfold countDivergence
  split <;> rfl

/-- Weighing a value in place is weighing the move to it. -/
theorem weigh_write : (c.write i e x).weigh m i e =
    (weighed? (c.localTerms m i e (c.state.update i e x)),
      (c.countDivergence m i (c.localTerms m i e (c.state.update i e x))).write i e x) := by
  have hterms : (c.write i e x).localTerms m i e (c.write i e x).state =
      c.localTerms m i e (c.state.update i e x) := rfl
  rw [← countDivergence_write]
  unfold weigh weighed? countDivergence
  rw [hterms]
  cases c.localTerms m i e (c.state.update i e x) with
  | error fault => rfl
  | ok terms =>
    simp only [divergence?]
    split <;> rfl

theorem metropolisInPlace_eq (m : Model α) (c : Chain α) (i e : Nat) (value : α) :
    (c.metropolisInPlace m i e value : Random σ _) = c.metropolis m i e value := by
  have hrefused (reason : String) :
      ((c.diverge m i reason).write i e value).write i e (c.state.value i e) =
        c.diverge m i reason := write_back rfl
  have hkept : (c.write i e value).write i e (c.state.value i e) = c := write_back rfl
  unfold metropolisInPlace metropolis
  simp only [weigh_write]
  cases c.localTerms m i e (c.state.update i e value) with
  | error fault =>
    simp only [weighed?, countDivergence, divergence?]
    rw [hrefused]
  | ok terms =>
    cases hdivergence : divergence? (.ok terms) with
    | none =>
      simp only [weighed?, countDivergence, hdivergence]
      rw [hkept]
      rfl
    | some reason =>
      simp only [weighed?, countDivergence, hdivergence]
      rw [hrefused]

/-- The categories of a list as they are weighed. -/
def categoryCandidates (m : Model α) (c : Chain α) (i e : Nat) (ks : List Nat) :
    List (Candidate α) :=
  ks.map fun k => (c.state.update i e (Scalar.ofNat k),
    c.localTerms m i e (c.state.update i e (Scalar.ofNat k)))

theorem countDivergences_write (candidates : List (Candidate α)) :
    (c.write i e x).countDivergences m i candidates =
      (c.countDivergences m i candidates).write i e x := by
  induction candidates generalizing c with
  | nil => rfl
  | cons candidate candidates ih =>
    change ((c.write i e x).countDivergence m i candidate.2).countDivergences m i candidates =
      ((c.countDivergence m i candidate.2).countDivergences m i candidates).write i e x
    rw [countDivergence_write, ih]

/-- The moves to categories are the same once another one has been tried. -/
theorem categoryCandidates_countDivergence_write (t : Except EvaluationError (Terms α))
    (ks : List Nat) : ((c.countDivergence m i t).write i e x).categoryCandidates m i e ks =
      c.categoryCandidates m i e ks := by
  refine List.map_congr_left fun k _ => ?_
  have hstate : ((c.countDivergence m i t).write i e x).state.update i e (Scalar.ofNat k) =
      c.state.update i e (Scalar.ofNat k) := by
    change ((c.countDivergence m i t).state.update i e x).update i e (Scalar.ofNat k) = _
    rw [State.update_update, state_countDivergence]
  rw [hstate, localTerms_countDivergence_write]

/-- Trying categories in place weighs the moves to them, and the last of them can be overwritten. -/
theorem tryCategories_eq (ks : List Nat) (c : Chain α) :
    (tryCategories m i e ks c).1 =
        (c.categoryCandidates m i e ks).map (fun candidate => weighed? candidate.2) ∧
      ∀ y, (tryCategories m i e ks c).2.write i e y =
        (c.countDivergences m i (c.categoryCandidates m i e ks)).write i e y := by
  induction ks generalizing c with
  | nil => exact ⟨rfl, fun _ => rfl⟩
  | cons k ks ih =>
    let t := c.localTerms m i e (c.state.update i e (Scalar.ofNat k))
    let d := (c.countDivergence m i t).write i e (Scalar.ofNat k)
    obtain ⟨hterms, hchain⟩ := ih d
    have hcandidates : d.categoryCandidates m i e ks = c.categoryCandidates m i e ks :=
      categoryCandidates_countDivergence_write t ks
    have hstep : tryCategories m i e (k :: ks) c =
        (weighed? t :: (tryCategories m i e ks d).1, (tryCategories m i e ks d).2) := by
      rw [tryCategories, weigh_write]
    rw [hstep]
    constructor
    · rw [hterms, hcandidates]
      rfl
    · intro y
      calc (tryCategories m i e ks d).2.write i e y
          = (d.countDivergences m i (c.categoryCandidates m i e ks)).write i e y := by
            rw [hchain, hcandidates]
        _ = ((c.countDivergence m i t).countDivergences m i
              (c.categoryCandidates m i e ks)).write i e y := by
            rw [countDivergences_write, write_write]
        _ = (c.countDivergences m i (c.categoryCandidates m i e (k :: ks))).write i e y := rfl

/-- The weight of a category is the total of its terms, where they can be weighed. -/
theorem categoryWeight_weighed? (t : Except EvaluationError (Terms α)) :
    categoryWeight t = ((weighed? t).map Terms.total).getD (-Scalar.infinity) := by
  unfold categoryWeight weighed?
  cases t with
  | error fault => rfl
  | ok terms => cases divergence? (.ok terms) <;> rfl

/-- A drawn candidate is moved to exactly where its terms can be weighed. -/
theorem commitCategory_some (state : State α) (t : Except EvaluationError (Terms α)) :
    c.commitCategory m i e (some (state, t)) =
      ((weighed? t).map fun terms => (true, c.commit m i e state terms)).getD (false, c) := by
  unfold commitCategory weighed?
  cases t with
  | error fault => rfl
  | ok terms => cases hdivergence : divergence? (.ok terms) <;> simp [hdivergence]

/-- Once all categories are tried, a value can be written as if only the divergences were counted. -/
theorem tryCategories_write (categories : Nat) :
    (tryCategories m i e (List.range categories) c).2.write i e y =
      (c.countDivergences m i (c.candidates m i e categories)).write i e y :=
  (tryCategories_eq (List.range categories) c).2 y

theorem state_countDivergences (candidates : List (Candidate α)) :
    (c.countDivergences m i candidates).state = c.state := by
  obtain ⟨divergences, warnings, hcounted⟩ := countDivergences_eq m c i candidates
  rw [hcounted]

/-- Writing the old value back leaves no trace of the categories that were tried. -/
theorem tryCategories_write_back (categories : Nat) :
    (tryCategories m i e (List.range categories) c).2.write i e (c.state.value i e) =
      c.countDivergences m i (c.candidates m i e categories) := by
  have hstate := state_countDivergences (m := m) (c := c) (i := i) (c.candidates m i e categories)
  rw [tryCategories_write, ← hstate]
  unfold write
  rw [State.update_value]

theorem getElem?_candidates {categories k : Nat} (hk : k < categories) :
    (c.candidates m i e categories)[k]? = some (c.state.update i e (Scalar.ofNat k),
      c.localTerms m i e (c.state.update i e (Scalar.ofNat k))) := by
  simp [candidates, hk]

/-- Moving in place to the category that is drawn is moving to its candidate. -/
theorem commitInPlace_eq (categories k : Nat) :
    (tryCategories m i e (List.range categories) c).2.commitInPlace m i e (c.state.value i e) k
        (tryCategories m i e (List.range categories) c).1[k]?.join =
      (c.countDivergences m i (c.candidates m i e categories)).commitCategory m i e
        (c.candidates m i e categories)[k]? := by
  have hterms : (tryCategories m i e (List.range categories) c).1 =
      (c.candidates m i e categories).map fun candidate => weighed? candidate.2 :=
    (tryCategories_eq (List.range categories) c).1
  rw [hterms, List.getElem?_map]
  by_cases hk : k < categories
  · rw [getElem?_candidates hk, commitCategory_some]
    simp only [Option.map_some, Option.join_some]
    cases weighed? (c.localTerms m i e (c.state.update i e (Scalar.ofNat k))) with
    | none => exact congrArg (Prod.mk false) (tryCategories_write_back categories)
    | some terms =>
      simp only [commitInPlace, tryCategories_write, Option.map_some, Option.getD_some]
      unfold write
      rw [state_countDivergences]
      rfl
  · have hnone : (c.candidates m i e categories)[k]? = none := by
      simp [candidates, hk]
    rw [hnone]
    exact congrArg (Prod.mk false) (tryCategories_write_back categories)

theorem gibbsInPlace_eq (m : Model α) (c : Chain α) (i e : Nat) :
    (c.gibbsInPlace m i e : Random σ _) = c.gibbs m i e := by
  unfold gibbsInPlace gibbs
  cases m.resolve i e c.state with
  | error fault => rfl
  | ok distribution =>
    cases distribution with
    | categorical weights =>
      have hlnWeights : (tryCategories m i e (List.range weights.size) c).1.map
          (fun terms => (terms.map Terms.total).getD (-Scalar.infinity)) =
            (c.candidates m i e weights.size).map fun candidate => categoryWeight candidate.2 := by
        rw [(tryCategories_eq _ c).1, List.map_map]
        exact List.map_congr_left fun candidate _ => (categoryWeight_weighed? candidate.2).symm
      unfold drawCategory
      simp only [hlnWeights, commitInPlace_eq, tryCategories_write_back]
    | _ => rfl

end InPlace

section Frame

/-- What may differ once element `e` of node `i` has moved: that element, its own log prior, those of the
children of its node, the outputs if the node is an argument, the likelihood if it is an argument or
observed, and the divergences that the move has met. -/
structure MovesOnly (m : Model α) (i e : Nat) (c d : Chain α) : Prop where
  state_eq : ∃ x, d.state = c.state.update i e x
  lnPrior_size : d.lnPrior.size = c.lnPrior.size
  lnPrior_other {k : Nat} : k ≠ i → k ∉ children m i → d.lnPrior[k]? = c.lnPrior[k]?
  lnPrior_own : i ∉ children m i → ∃ own, d.lnPrior[i]? = c.lnPrior[i]?.map (·.set e own)
  outputs_eq : i ∉ m.arguments → d.outputs = c.outputs
  lnLikelihood_eq : i ∉ m.arguments → (m.nodes[i]?.map Node.isObserved).getD false = false →
    d.lnLikelihood = c.lnLikelihood
  others_eq : d = { c with
    state := d.state, lnPrior := d.lnPrior, outputs := d.outputs, lnLikelihood := d.lnLikelihood,
    divergences := d.divergences, warnings := d.warnings }

/-- A refused move changes nothing but the count of divergences and the warnings, and an accepted one only
what depends on its element. -/
structure Frames (m : Model α) (i e : Nat) (c : Chain α) (moved : Bool × Chain α) : Prop where
  refused : moved.1 = false → moved.2 =
    { c with divergences := moved.2.divergences, warnings := moved.2.warnings }
  accepted : moved.1 = true → MovesOnly m i e c moved.2

omit [Scalar α] in
/-- Moving leaves the cached rows of all nodes but the children as the moved element makes them. -/
theorem commit_lnPrior_of_not_mem {d : Chain α} {state : State α} {k : Nat}
    (hk : k ∉ children m i) : (d.commit m i e state terms).lnPrior[k]? =
      (d.lnPrior.modify i (·.set e terms.own))[k]? := by
  refine Updates.getElem?_run_of_not_mem (fun hmem => hk ?_) _
  obtain ⟨⟨child, row⟩, hzip, rfl⟩ := List.mem_map.mp hmem
  exact (List.of_mem_zip hzip).1

/-- Only the terms of an argument have outputs. -/
theorem outputs_of_localTerms {state : State α} (h : c.localTerms m i e state = .ok terms)
    (hargument : i ∉ m.arguments) : terms.outputs = none := by
  unfold localTerms at h
  simp only [List.contains_eq_mem, hargument, decide_false] at h
  split at h
  · cases h
    rfl
  · cases h
    rfl

/-- The likelihood is computed anew only for an argument or an observed node. -/
theorem lnLikelihood_of_localTerms {state : State α} (h : c.localTerms m i e state = .ok terms)
    (hargument : i ∉ m.arguments)
    (hobserved : (m.nodes[i]?.map Node.isObserved).getD false = false) :
    terms.lnLikelihood = c.lnLikelihood := by
  unfold localTerms at h
  simp only [List.contains_eq_mem, hargument, decide_false, hobserved] at h
  split at h
  · cases h
    rfl
  · cases h
    rfl

/-- Moving to the state of some terms changes only what they are the terms of. -/
theorem commit_movesOnly (hterms : c.localTerms m i e (c.state.update i e x) = .ok terms)
    (divergences : Nat) (warnings : List Warning) :
    MovesOnly m i e c ({ c with divergences := divergences, warnings := warnings }.commit m i e
      (c.state.update i e x) terms) where
  state_eq := ⟨x, rfl⟩
  lnPrior_size := (Updates.size_run _ _).trans Array.size_modify
  lnPrior_other hne hchild := by
    rw [commit_lnPrior_of_not_mem hchild, Array.getElem?_modify, if_neg (Ne.symm hne)]
  lnPrior_own hchild := by
    refine ⟨terms.own, ?_⟩
    rw [commit_lnPrior_of_not_mem hchild, Array.getElem?_modify, if_pos rfl]
  outputs_eq hargument := by
    unfold commit
    rw [outputs_of_localTerms hterms hargument]
    rfl
  lnLikelihood_eq hargument hobserved := lnLikelihood_of_localTerms hterms hargument hobserved
  others_eq := rfl

omit [Scalar α] in
/-- Where nothing is moved to, only divergences have been counted. -/
theorem Frames.kept (divergences : Nat) (warnings : List Warning) :
    Frames m i e c (false, { c with divergences := divergences, warnings := warnings }) :=
  ⟨fun _ => rfl, nofun⟩

theorem Frames.commit (hterms : c.localTerms m i e (c.state.update i e x) = .ok terms)
    (divergences : Nat) (warnings : List Warning) :
    Frames m i e c (true, { c with divergences := divergences, warnings := warnings }.commit m i e
      (c.state.update i e x) terms) :=
  ⟨nofun, fun _ => commit_movesOnly hterms divergences warnings⟩

theorem metropolis_frames (m : Model α) (c : Chain α) (i e : Nat) (value : α) :
    (c.metropolis m i e value : Random σ _).Always (Frames m i e c) := by
  unfold metropolis
  simp only
  split
  · rename_i terms _ hterms
    refine Random.Always.bind_any fun isAccepted => ?_
    cases isAccepted with
    | true => exact Random.Always.of_pure (.commit hterms c.divergences c.warnings)
    | false => exact Random.Always.of_pure (.kept c.divergences c.warnings)
  · exact Random.Always.of_pure (.kept _ _)
  · exact Random.Always.of_pure (.kept c.divergences c.warnings)

theorem commitCategory_frames (categories k divergences : Nat) (warnings : List Warning) :
    Frames m i e c ({ c with divergences := divergences, warnings := warnings }.commitCategory m i e
      (c.candidates m i e categories)[k]?) := by
  by_cases hk : k < categories
  · rw [getElem?_candidates hk, commitCategory_some]
    cases hweighed : weighed? (c.localTerms m i e (c.state.update i e (Scalar.ofNat k))) with
    | none => exact .kept _ _
    | some terms => exact .commit (eq_ok_of_weighed? hweighed) _ _
  · have hnone : (c.candidates m i e categories)[k]? = none := by
      simp [candidates, hk]
    rw [hnone]
    exact .kept _ _

theorem gibbs_frames (m : Model α) (c : Chain α) (i e : Nat) :
    (c.gibbs m i e : Random σ _).Always (Frames m i e c) := by
  unfold gibbs
  split
  · rename_i weights _
    obtain ⟨divergences, warnings, hcounted⟩ :=
      countDivergences_eq m c i (c.candidates m i e weights.size)
    unfold drawCategory
    simp only [hcounted]
    split
    · exact Random.Always.of_pure (.kept _ _)
    · exact Random.Always.bind_any fun u =>
        Random.Always.of_pure (commitCategory_frames _ _ _ _)
  · exact Random.Always.of_pure (.kept c.divergences c.warnings)

/-- Made in the one state that the chain has, the moves restore whatever they have overwritten: a refused
move, for whatever reason, changes nothing but the count of divergences and the warnings, and an accepted
one only the element, its own log prior, those of the children of its node, and what depends on the
outputs and observations that its node has a part in. -/
theorem inPlace_frames (m : Model α) (c : Chain α) (i e : Nat) :
    (∀ value, (c.metropolisInPlace m i e value : Random σ _).Always (Frames m i e c) ∧
      (c.metropolisInPlace m i e value : Random σ _) = c.metropolis m i e value) ∧
    (c.gibbsInPlace m i e : Random σ _).Always (Frames m i e c) ∧
      (c.gibbsInPlace m i e : Random σ _) = c.gibbs m i e := by
  refine ⟨fun value => ⟨?_, metropolisInPlace_eq m c i e value⟩, ?_, gibbsInPlace_eq m c i e⟩
  · rw [metropolisInPlace_eq]
    exact metropolis_frames m c i e value
  · rw [gibbsInPlace_eq]
    exact gibbs_frames m c i e

end Frame

end Chain

end InfoFlow
