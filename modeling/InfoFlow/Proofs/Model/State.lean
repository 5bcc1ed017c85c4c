import InfoFlow.Model.Prior
import InfoFlow.Proofs.Random.Always

namespace InfoFlow

variable {α : Type}

namespace State

variable {s : State α} {i e k : Nat} {x : α}

theorem size_update : (s.update i e x).size = s.size := Array.size_modify

theorem getD_update_self :
    (s.update i e x).getD i #[] = (s.getD i #[]).setIfInBounds e x := by
  unfold update
  by_cases hi : i < s.size
  · simp [Array.getElem_modify, hi]
  · simp [hi]

theorem getD_update_of_ne (h : k ≠ i) : (s.update i e x).getD k #[] = s.getD k #[] := by
  unfold update
  by_cases hk : k < s.size
  · simp [Array.getElem_modify, hk, h.symm]
  · simp [hk]

theorem size_getD_update : ((s.update i e x).getD k #[]).size = (s.getD k #[]).size := by
  by_cases h : k = i
  · rw [h, getD_update_self, Array.size_setIfInBounds]
  · rw [getD_update_of_ne h]

theorem value_update_of_ne [Scalar α] {l : Nat} (h : k ≠ i ∨ l ≠ e) :
    (s.update i e x).value k l = s.value k l := by
  unfold value
  by_cases hk : k = i
  · have hl : l ≠ e := h.resolve_left fun hne => hne hk
    rw [hk, getD_update_self]
    simp only [Array.getD_eq_getD_getElem?, Array.getElem?_setIfInBounds, if_neg hl.symm]
  · rw [getD_update_of_ne hk]

/-- Only the last value written to an element stays. -/
theorem update_update {y : α} : (s.update i e x).update i e y = s.update i e y := by
  unfold update
  refine Array.ext_getElem? fun k => ?_
  rw [Array.getElem?_modify, Array.getElem?_modify, Array.getElem?_modify]
  split
  · rw [Option.map_map]
    refine congrArg (fun f => Option.map f s[k]?) (funext fun row => ?_)
    simp only [Function.comp_apply, Array.setIfInBounds_setIfInBounds]
  · rfl

/-- Writing the value that an element has changes nothing. -/
theorem update_value [Scalar α] : s.update i e (s.value i e) = s := by
  have hrow (row : Array α) : row.setIfInBounds e (row.getD e 0) = row := by
    refine Array.ext_getElem? fun l => ?_
    rw [Array.getElem?_setIfInBounds, Array.getD_eq_getD_getElem?]
    split
    · rename_i hel
      subst hel
      by_cases hlt : e < row.size
      · simp [hlt]
      · simp [hlt]
    · rfl
  unfold update value
  refine Array.ext_getElem? fun k => ?_
  rw [Array.getElem?_modify]
  split
  · rename_i hik
    subst hik
    have hvalues : s.getD i #[] = s[i]?.getD #[] := Array.getD_eq_getD_getElem?
    rw [hvalues]
    cases s[i]? with
    | none => rfl
    | some row => exact congrArg some (hrow row)
  · rfl

end State

namespace Model

variable {m : Model α} {s : State α} {i e : Nat} {x : α}

/-- A state with a value for every element of every node. -/
def Fits (m : Model α) (s : State α) : Prop :=
  s.toList.map Array.size = m.nodes.toList.map Node.width

theorem Fits.size_eq (h : m.Fits s) : s.size = m.nodes.size := by
  have hlength := congrArg List.length h
  simpa using hlength

theorem Fits.getElem?_eq (h : m.Fits s) (k : Nat) :
    s[k]?.map Array.size = m.nodes[k]?.map Node.width := by
  have hk := congrArg (fun widths => widths[k]?) h
  simpa using hk

theorem Fits.size_getD (h : m.Fits s) {k : Nat} {node : Node α} (hk : m.nodes[k]? = some node) :
    (s.getD k #[]).size = node.width := by
  have hsize := h.getElem?_eq k
  rw [hk, Option.map_some, Option.map_eq_some_iff] at hsize
  obtain ⟨values, hvalues, hwidth⟩ := hsize
  rw [Array.getD_eq_getD_getElem?, hvalues]
  exact hwidth

theorem Fits.update (h : m.Fits s) : m.Fits (s.update i e x) := by
  refine Eq.trans (List.ext_getElem? fun k => ?_) h
  by_cases hk : k < s.size
  · have hsize := State.size_getD_update (s := s) (i := i) (e := e) (k := k) (x := x)
    simp only [Array.getD_eq_getD_getElem?] at hsize
    have hk' : k < (s.update i e x).size := by rwa [State.size_update]
    simpa [hk, hk'] using hsize
  · have hk' : ¬ k < (s.update i e x).size := by rwa [State.size_update]
    simp [hk, hk']

section Draws

variable {σ : Type} [Scalar α] [RandomWords σ]

theorem drawElements_length (node : Node α) (s : State α) (elements : List Nat) :
    (drawElements node s elements : Random σ _).Always fun drawn =>
      ∀ xs, drawn = .ok xs → xs.length = elements.length := by
  induction elements with
  | nil =>
    refine Random.Always.of_pure fun xs hxs => ?_
    cases hxs
    rfl
  | cons e rest ih =>
    unfold drawElements
    split
    · exact Random.Always.of_pure fun xs hxs => by cases hxs
    · refine Random.Always.bind_any fun x => ?_
      cases x with
      | error b => exact Random.Always.of_pure fun xs hxs => by cases hxs
      | ok x =>
        refine Random.Always.bind ih fun drawn hdrawn => ?_
        cases drawn with
        | error failure => exact Random.Always.of_pure fun xs hxs => by cases hxs
        | ok ys =>
          refine Random.Always.of_pure fun xs hxs => ?_
          cases hxs
          simp [hdrawn ys rfl]

private theorem drawNodes_widths (s : State α) (nodes : List (Node α)) :
    (drawNodes s nodes : Random σ _).Always fun drawn => ∀ s', drawn = .ok s' →
      s'.toList.map Array.size = s.toList.map Array.size ++ nodes.map Node.width := by
  induction nodes generalizing s with
  | nil =>
    refine Random.Always.of_pure fun s' hs' => ?_
    cases hs'
    simp
  | cons node rest ih =>
    unfold drawNodes
    refine Random.Always.bind (drawElements_length node s (List.range node.width)) ?_
    intro drawn hdrawn
    cases drawn with
    | error failure => exact Random.Always.of_pure fun s' hs' => by cases hs'
    | ok values =>
      refine (ih (s.push values.toArray)).mono fun drawn' h s' hs' => ?_
      have hwidth : values.length = node.width := by simpa using hdrawn values rfl
      simpa [hwidth] using h s' hs'

/-- An ancestral draw has a value for every element of every node. -/
theorem samplePrior_fits (m : Model α) :
    (m.samplePrior : Random σ _).Always fun drawn => ∀ s, drawn = .ok s → m.Fits s :=
  (drawNodes_widths #[] m.nodes.toList).mono fun drawn h s hs => by
    simpa [Fits] using h s hs

/-- A state that some prior draw has given. -/
def IsPriorDraw (m : Model α) (σ : Type) [RandomWords σ] (s : State α) : Prop :=
  ∃ g g' : σ, m.samplePrior.run g = (.ok s, g')

theorem samplePrior_isPriorDraw (m : Model α) : (m.samplePrior : Random σ _).Always fun drawn =>
    ∀ s, drawn = .ok s → m.IsPriorDraw σ s :=
  fun g _ hs => ⟨g, _, Prod.ext hs rfl⟩

theorem IsPriorDraw.fits {m : Model α} {s : State α} (h : m.IsPriorDraw σ s) : m.Fits s := by
  obtain ⟨g, _, hrun⟩ := h
  exact samplePrior_fits m g s (by rw [hrun])

end Draws

end Model

end InfoFlow
