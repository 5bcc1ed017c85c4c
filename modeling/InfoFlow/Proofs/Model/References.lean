import InfoFlow.Model.Compile
import Mathlib.Data.List.Nodup

namespace InfoFlow

section Keys

variable {β : Type} {xs : List β} {x : β} {key : β → String} {name : String} {i : Nat}

theorem findIdx?_key_eq_none_iff : xs.findIdx? (key · == name) = none ↔ name ∉ xs.map key := by
  rw [List.findIdx?_eq_none_iff]
  simp

/-- Where keys are not repeated, each is found at its own place. -/
theorem findIdx?_key (hnodup : (xs.map key).Nodup) (hx : xs[i]? = some x) :
    xs.findIdx? (key · == key x) = some i := by
  obtain ⟨hlt, rfl⟩ := List.getElem?_eq_some_iff.mp hx
  refine List.findIdx?_eq_some_iff_getElem.mpr ⟨hlt, by simp, fun k hk => ?_⟩
  have hdistinct := List.pairwise_iff_getElem.mp (List.pairwise_map.mp hnodup)
  simpa using hdistinct k i (Nat.lt_trans hk hlt) hlt hk

end Keys

end InfoFlow

namespace InfoFlow.Program

variable {α : Type} {p : Program α} {name : String} {j : Nat}

/-- The declared names, inputs first. -/
def names (p : Program α) : List String := p.inputs.map (·.1.name) ++ p.outputs.map Output.name

/-- A name that a list has before, where nothing before it is repeated. -/
def IsFirstRepeated (names : List String) (name : String) : Prop :=
  ∃ before after, names = before ++ name :: after ∧ before.Nodup ∧ name ∈ before

namespace IsFirstRepeated

variable {names : List String} {name' : String}

/-- Nothing before a first repeated name can have been repeated earlier. -/
private theorem length_le {before after before' after' : List String}
    (h : names = before ++ name :: after) (hmem : name ∈ before)
    (h' : names = before' ++ name' :: after') (hnodup : before'.Nodup) :
    before'.length ≤ before.length := by
  by_contra hlt
  obtain ⟨i, hi⟩ := List.mem_iff_getElem?.mp hmem
  have hilt := (List.getElem?_eq_some_iff.mp hi).1
  -- the name stands at two places of `before'`
  have hfirst : before'[i]? = some name := by
    have hat : names[i]? = some name := by rw [h, List.getElem?_append_left hilt, hi]
    rwa [h', List.getElem?_append_left (by omega)] at hat
  have hagain : before'[before.length]? = some name := by
    have hat : names[before.length]? = some name := by simp [h]
    rwa [h', List.getElem?_append_left (by omega)] at hat
  have hsame := (List.getElem?_inj (by omega) hnodup).mp (hfirst.trans hagain.symm)
  omega

theorem unique (h : IsFirstRepeated names name) (h' : IsFirstRepeated names name') :
    name = name' := by
  obtain ⟨before, after, heq, hnodup, hmem⟩ := h
  obtain ⟨before', after', heq', hnodup', hmem'⟩ := h'
  have hlength : before.length = before'.length :=
    Nat.le_antisymm (length_le heq' hmem' heq hnodup) (length_le heq hmem heq' hnodup')
  rw [heq] at heq'
  obtain ⟨_, hrest⟩ := List.append_inj heq' hlength
  exact (List.cons.inj hrest).1

theorem not_nodup (h : IsFirstRepeated names name) : ¬ names.Nodup := by
  obtain ⟨before, after, rfl, _, hmem⟩ := h
  intro hnodup
  exact (List.nodup_append.mp hnodup).2.2 _ hmem _ List.mem_cons_self rfl

end IsFirstRepeated

/-- What the search for a repeated name answers, once it has seen some names that are all different. -/
private theorem firstRepeated?_cases (seen rest : List String) (hseen : seen.Nodup) :
    firstRepeated? seen rest = none ∧ (seen.reverse ++ rest).Nodup ∨
      ∃ name, firstRepeated? seen rest = some name ∧
        IsFirstRepeated (seen.reverse ++ rest) name := by
  induction rest generalizing seen with
  | nil => exact .inl ⟨rfl, by simpa [List.nodup_reverse] using hseen⟩
  | cons name rest ih =>
    unfold firstRepeated?
    by_cases hmem : name ∈ seen
    · refine .inr ⟨name, by simp [hmem], seen.reverse, rest, rfl, ?_, ?_⟩
      · exact List.nodup_reverse.mpr hseen
      · exact List.mem_reverse.mpr hmem
    · have hstep := ih (name :: seen) (List.nodup_cons.mpr ⟨hmem, hseen⟩)
      simp only [List.reverse_cons, List.append_assoc, List.singleton_append] at hstep
      simpa [hmem] using hstep

theorem nodup_iff_not_isFirstRepeated {names : List String} :
    names.Nodup ↔ ∀ name, ¬ IsFirstRepeated names name := by
  refine ⟨fun hnodup name h => h.not_nodup hnodup, fun h => ?_⟩
  rcases firstRepeated?_cases [] names List.nodup_nil with ⟨_, hnodup⟩ | ⟨name, _, hfirst⟩
  · exact hnodup
  · exact absurd hfirst (h name)

/-- Names are checked from the first declaration to the last, after the outputs. -/
theorem checkNames_cases (p : Program α) :
    p.outputs = [] ∧ p.checkNames = .error .noOutputs ∨
      p.outputs ≠ [] ∧ p.names.Nodup ∧ p.checkNames = .ok () ∨
      p.outputs ≠ [] ∧ ∃ name, IsFirstRepeated p.names name ∧
        p.checkNames = .error (.duplicateVariable name) := by
  unfold checkNames
  by_cases hempty : p.outputs = []
  · exact .inl ⟨hempty, by rw [hempty]; rfl⟩
  · have hsome : p.outputs.isEmpty = false := by simpa using hempty
    have hrepeated := firstRepeated?_cases [] p.names List.nodup_nil
    simp only [List.reverse_nil, List.nil_append] at hrepeated
    unfold names at hrepeated ⊢
    rw [hsome]
    rcases hrepeated with ⟨hnone, hnodup⟩ | ⟨name, hname, hfirst⟩
    · rw [hnone]
      exact .inr (.inl ⟨hempty, hnodup, rfl⟩)
    · rw [hname]
      exact .inr (.inr ⟨hempty, name, hfirst, rfl⟩)

theorem names_nodup (h : p.checkNames = .ok ()) : p.names.Nodup := by
  rcases p.checkNames_cases with ⟨_, herror⟩ | ⟨_, hnodup, _⟩ | ⟨_, name, _, herror⟩
  · rw [h] at herror
    cases herror
  · exact hnodup
  · rw [h] at herror
    cases herror

theorem inputIndex?_lt (h : p.inputIndex? name = some j) : j < p.inputs.length := by
  obtain ⟨hlt, _⟩ := List.findIdx?_eq_some_iff_getElem.mp h
  exact hlt

theorem exists_input_of_inputIndex? (h : p.inputIndex? name = some j) :
    ∃ v role, p.inputs[j]? = some (v, role) ∧ v.name = name := by
  obtain ⟨hlt, hname, _⟩ := List.findIdx?_eq_some_iff_getElem.mp h
  exact ⟨_, _, List.getElem?_eq_getElem hlt, by simpa using hname⟩

theorem inputIndex?_eq_none_iff :
    p.inputIndex? name = none ↔ name ∉ p.inputs.map (·.1.name) :=
  findIdx?_key_eq_none_iff

/-- Two places of the same name are one place. -/
theorem input_unique (hnames : p.names.Nodup) {i : Nat} {v w : Variable α} {role role' : Role}
    (hi : p.inputs[i]? = some (v, role)) (hj : p.inputs[j]? = some (w, role'))
    (hname : v.name = w.name) : i = j := by
  have hsame : (p.inputs.map (·.1.name))[i]? = (p.inputs.map (·.1.name))[j]? := by
    rw [List.getElem?_map, List.getElem?_map, hi, hj]
    exact congrArg some hname
  have hlt : i < (p.inputs.map (·.1.name)).length := by
    simpa using (List.getElem?_eq_some_iff.mp hi).1
  exact (List.getElem?_inj hlt (List.nodup_append.mp hnames).1).mp hsame

theorem input_eq_of_name (hnames : p.names.Nodup) {i : Nat} {input other : Variable α × Role}
    (hi : p.inputs[i]? = some input) (hother : other ∈ p.inputs)
    (hname : other.1.name = input.1.name) : other = input := by
  obtain ⟨k, hk⟩ := List.mem_iff_getElem?.mp hother
  cases input_unique hnames hk hi hname
  exact Option.some.inj (hk.symm.trans hi)

/-- Where names are not repeated, a name leads to no place but that of its input. -/
theorem inputIndex?_eq_some_iff (hnames : p.names.Nodup) :
    p.inputIndex? name = some j ↔ ∃ v role, p.inputs[j]? = some (v, role) ∧ v.name = name := by
  refine ⟨exists_input_of_inputIndex?, ?_⟩
  rintro ⟨v, role, hj, rfl⟩
  exact findIdx?_key (List.nodup_append.mp hnames).1 hj

variable {d : Nat} {v w : Variable α} {role : Role} {parameter : String}

theorem resolveReference_of_none (h : p.inputIndex? name = none) :
    p.resolveReference d v parameter name =
      .error (.unresolvedReference v.name parameter name) := by
  unfold resolveReference
  rw [h]
  rfl

theorem resolveReference_of_some (h : p.inputIndex? name = some j)
    (hj : p.inputs[j]? = some (w, role)) :
    p.resolveReference d v parameter name =
      if j = d then .error (.cycle [v.name])
      else if w.width ≠ 1 ∧ w.width ≠ v.width then
        .error (.notBroadcastable v.name parameter name w.width v.width)
      else .ok j := by
  unfold resolveReference
  simp only [h, hj, Option.map_some, Option.getD_some]
  by_cases hself : j = d
  · simp only [hself, if_true]
    rfl
  · by_cases hwidth : w.width ≠ 1 ∧ w.width ≠ v.width
    · simp only [hself, hwidth.1, hwidth.2, ne_eq, not_false_eq_true, and_self, if_true, if_false]
      rfl
    · simp only [hself, hwidth, if_false]
      rw [if_neg (by simpa using hwidth)]
      rfl

theorem inputIndex?_of_resolveReference (h : p.resolveReference d v parameter name = .ok j) :
    p.inputIndex? name = some j := by
  cases hindex : p.inputIndex? name with
  | none =>
    rw [resolveReference_of_none hindex] at h
    cases h
  | some k =>
    obtain ⟨w, role, hk, _⟩ := exists_input_of_inputIndex? hindex
    rw [resolveReference_of_some hindex hk] at h
    split_ifs at h
    cases h
    rfl

/-- A reference that is resolved has a target of one element, or of as many as its subject. -/
theorem fits_of_resolveReference (h : p.resolveReference d v parameter name = .ok j) :
    ∃ w role, p.inputs[j]? = some (w, role) ∧ w.name = name ∧
      (w.width = 1 ∨ w.width = v.width) := by
  have hindex := inputIndex?_of_resolveReference h
  obtain ⟨w, role, hj, hname⟩ := exists_input_of_inputIndex? hindex
  refine ⟨w, role, hj, hname, ?_⟩
  rw [resolveReference_of_some hindex hj] at h
  split_ifs at h with hself hwidth
  omega

end InfoFlow.Program
