import InfoFlow.Proofs.Model.References
import Mathlib.Data.List.Nodup

namespace InfoFlow

variable {α : Type}

/-- A variable of some width has the element that is selected, if one is. -/
def Selector.FitsWidth (s : Selector) (width : Nat) : Prop := ∀ e ∈ s.index, e < width

namespace Program

/-- The target of an observation selects an output or an input, or an element that it has. -/
def HasTarget (p : Program α) (target : String) : Prop :=
  ∃ s, Selector.parse? target = some s ∧
    ((∃ output ∈ p.outputs, output.name = s.name ∧ s.FitsWidth output.width) ∨
      ∃ input ∈ p.inputs, input.1.name = s.name ∧ s.FitsWidth input.1.width)

/-- The site that a selector stands for, given the node of each declared input. -/
inductive IsSiteOf (p : Program α) (declaration : List Nat) (s : Selector) : Site → Prop where
  | output {o : Nat} {output : Output} : p.outputs[o]? = some output → output.name = s.name →
      s.FitsWidth output.width → IsSiteOf p declaration s (.output o s.index)
  | node {d i : Nat} {v : Variable α} {role : Role} : p.inputs[d]? = some (v, role) →
      declaration[d]? = some i → v.name = s.name → s.FitsWidth v.width →
      IsSiteOf p declaration s (.node i s.index)

variable {p : Program α} {declaration : List Nat} {target : String} {s : Selector}

theorem checkElement_cases (target : String) (s : Selector) (width : Nat) :
    checkElement target s width = .ok () ∧ s.FitsWidth width ∨
      checkElement target s width = .error (.unknownObservationTarget target) ∧
        ¬ s.FitsWidth width := by
  unfold checkElement Selector.FitsWidth
  cases s.index with
  | none => exact .inl ⟨rfl, by simp⟩
  | some e =>
    by_cases he : width ≤ e
    · exact .inr ⟨by simp only [he, if_true]; rfl, by simpa using he⟩
    · exact .inl ⟨by simp only [he, if_false]; rfl, by simpa using he⟩

/-- A target that an output is named in is decided by the width of the output. -/
theorem observationSite_output (hs : Selector.parse? target = some s) {o : Nat}
    (ho : p.outputs.findIdx? (·.name == s.name) = some o) {output : Output}
    (houtput : p.outputs[o]? = some output) :
    p.observationSite declaration target = (do
      checkElement target s output.width
      return (.output o s.index, output.isDiscrete)) := by
  unfold observationSite
  simp only [hs, ho, List.getD_eq_getElem?_getD, houtput, Option.getD_some]

/-- A target that only an input is named in is decided by the width of the input. -/
theorem observationSite_input (hs : Selector.parse? target = some s)
    (ho : p.outputs.findIdx? (·.name == s.name) = none) {d i : Nat}
    (hd : p.inputIndex? s.name = some d) {v : Variable α} {role : Role}
    (hv : p.inputs[d]? = some (v, role)) (hi : declaration[d]? = some i) :
    p.observationSite declaration target = (do
      checkElement target s v.width
      return (.node i s.index, v.isDiscrete)) := by
  unfold observationSite
  simp only [hs, ho, hd, hv, hi]

/-- Where an output has the selected name, nothing else has. -/
private theorem hasTarget_output_iff (hnames : p.names.Nodup) (hs : Selector.parse? target = some s)
    {output : Output} (houtput : output ∈ p.outputs) (hname : output.name = s.name) :
    p.HasTarget target ↔ s.FitsWidth output.width := by
  obtain ⟨_, houtputs, hapart⟩ := List.nodup_append.mp hnames
  constructor
  · rintro ⟨t, hparse, htarget⟩
    rw [hs] at hparse
    cases hparse
    rcases htarget with ⟨other, hother, hsame, hfits⟩ | ⟨input, hinput, hsame, _⟩
    · rwa [List.inj_on_of_nodup_map houtputs hother houtput (hsame.trans hname.symm)] at hfits
    · have hne := hapart _ (List.mem_map_of_mem hinput) _ (List.mem_map_of_mem houtput)
      exact absurd (hsame.trans hname.symm) hne
  · exact fun hfits => ⟨s, hs, .inl ⟨output, houtput, hname, hfits⟩⟩

/-- Where no output has the selected name, the inputs decide. -/
private theorem hasTarget_input_iff (hs : Selector.parse? target = some s)
    (hnone : ∀ output ∈ p.outputs, output.name ≠ s.name) :
    p.HasTarget target ↔
      ∃ input ∈ p.inputs, input.1.name = s.name ∧ s.FitsWidth input.1.width := by
  constructor
  · rintro ⟨t, hparse, htarget⟩
    rw [hs] at hparse
    cases hparse
    exact htarget.resolve_left fun ⟨output, houtput, hname, _⟩ => hnone output houtput hname
  · exact fun hinput => ⟨s, hs, .inr hinput⟩

/-- A target is bound to the site that its selector stands for, or refused if there is none. -/
theorem observationSite_cases (hnames : p.names.Nodup)
    (hdeclaration : p.inputs.length ≤ declaration.length) (target : String) :
    (∃ s site isDiscrete, p.observationSite declaration target = .ok (site, isDiscrete) ∧
      p.IsSiteOf declaration s site ∧ p.HasTarget target) ∨
    p.observationSite declaration target = .error (.unknownObservationTarget target) ∧
      ¬ p.HasTarget target := by
  cases hs : Selector.parse? target with
  | none =>
    refine .inr ⟨by unfold observationSite; rw [hs]; rfl, ?_⟩
    rintro ⟨s, hparse, _⟩
    rw [hs] at hparse
    cases hparse
  | some s =>
    cases ho : p.outputs.findIdx? (·.name == s.name) with
    | some o =>
      obtain ⟨hlt, hname, _⟩ := List.findIdx?_eq_some_iff_getElem.mp ho
      have houtput := List.getElem?_eq_getElem hlt
      have hname : (p.outputs[o]).name = s.name := by simpa using hname
      rw [observationSite_output hs ho houtput,
        hasTarget_output_iff hnames hs (List.getElem_mem hlt) hname]
      rcases checkElement_cases target s (p.outputs[o]).width with ⟨hok, hfits⟩ | ⟨herror, hwide⟩
      · rw [hok]
        exact .inl ⟨s, _, _, rfl, .output houtput hname hfits, hfits⟩
      · rw [herror]
        exact .inr ⟨rfl, hwide⟩
    | none =>
      have hnone : ∀ output ∈ p.outputs, output.name ≠ s.name := by
        simpa using List.findIdx?_eq_none_iff.mp ho
      rw [hasTarget_input_iff hs hnone]
      cases hd : p.inputIndex? s.name with
      | none =>
        refine .inr ⟨by unfold observationSite; simp only [hs, ho, hd]; rfl, ?_⟩
        rintro ⟨input, hinput, hname, _⟩
        exact inputIndex?_eq_none_iff.mp hd (List.mem_map.mpr ⟨input, hinput, hname⟩)
      | some d =>
        obtain ⟨v, role, hv, hname⟩ := exists_input_of_inputIndex? hd
        have hi := List.getElem?_eq_getElem (Nat.lt_of_lt_of_le (inputIndex?_lt hd) hdeclaration)
        rw [observationSite_input hs ho hd hv hi]
        rcases checkElement_cases target s v.width with ⟨hok, hfits⟩ | ⟨herror, hwide⟩
        · rw [hok]
          exact .inl ⟨s, _, _, rfl, .node hv hi hname hfits, _, List.mem_of_getElem? hv, hname,
            hfits⟩
        · rw [herror]
          refine .inr ⟨rfl, ?_⟩
          rintro ⟨input, hinput, hsame, hfits⟩
          cases input_eq_of_name hnames hv hinput (hsame.trans hname.symm)
          exact hwide hfits

end Program

end InfoFlow
