import InfoFlow.Program.Basic
import InfoFlow.Proofs.Program.Except
import Mathlib.Data.List.Basic

namespace InfoFlow

variable {α : Type} [Scalar α]

/-- The variables that declarations give. -/
inductive Variable.Declared : Variable α → Prop where
  | declare {name : String} {f : Family} {parameters : List (Parameter α)} {v : Variable α} :
    Variable.declare name f parameters = .ok v → Declared v
  | withElements {v w : Variable α} {n : Nat} : Declared v → v.withElements n = .ok w → Declared w
  | hyper {v : Variable α} : Declared v → Declared v.hyper

namespace Variable

theorem declare_eq {name : String} {f : Family} {parameters : List (Parameter α)} {v : Variable α}
    (h : declare name f parameters = .ok v) :
    v = ⟨name, f, parameters, .scalar, false⟩ ∧ parameters.length = f.signature.length := by
  unfold declare at h
  simp only at h
  split at h
  · cases h
  · rename_i hlength
    split at h
    · cases h
    · cases h
      exact ⟨rfl, not_not.mp hlength⟩

omit [Scalar α] in
theorem withElements_eq {v w : Variable α} {n : Nat} (h : v.withElements n = .ok w) :
    w = { v with shape := .vector n } ∧ 0 < n := by
  unfold withElements at h
  split at h
  · cases h
  · rename_i hn
    cases h
    exact ⟨rfl, Nat.pos_of_ne_zero hn⟩

/-- Every parameter of a declared variable has been checked on its own. -/
theorem checkParameter_of_declare {name : String} {f : Family} {parameters : List (Parameter α)}
    {v : Variable α} (h : declare name f parameters = .ok v) {parameter : String × Parameter α}
    (hmem : parameter ∈ f.signature.zip parameters) :
    checkParameter f parameter.1 parameter.2 = .ok () := by
  unfold declare at h
  simp only at h
  split at h
  · cases h
  · split at h
    · cases h
    · rename_i hchecked
      obtain ⟨_, hchecks, _⟩ := Except.bind_eq_ok_iff.mp hchecked
      exact Except.forM_eq_ok_iff.mp hchecks parameter hmem

theorem Declared.length_parameters {v : Variable α} (h : v.Declared) :
    v.parameters.length = v.family.signature.length := by
  induction h with
  | declare h =>
    obtain ⟨rfl, hlength⟩ := declare_eq h
    exact hlength
  | withElements _ h ih =>
    obtain ⟨rfl, _⟩ := withElements_eq h
    exact ih
  | hyper _ ih => exact ih

theorem Declared.width_pos {v : Variable α} (h : v.Declared) : 0 < v.width := by
  induction h with
  | declare h =>
    obtain ⟨rfl, _⟩ := declare_eq h
    exact Nat.zero_lt_one
  | withElements _ h _ =>
    obtain ⟨rfl, hn⟩ := withElements_eq h
    exact hn
  | hyper _ ih => exact ih

/-- Parameters that are all literals were checked together when the variable was declared. -/
theorem Declared.distribution?_ne_error {v : Variable α} (h : v.Declared) (e : InvalidParameter) :
    v.distribution? ≠ some (.error e) := by
  suffices hliteral : ∀ fault, literalDistribution? v.family v.parameters ≠ some (.error fault) by
    unfold distribution?
    cases hd : literalDistribution? v.family v.parameters with
    | none => simp
    | some d =>
      cases d with
      | error fault => exact absurd hd (hliteral fault)
      | ok d => simp [Except.mapError]
  induction h with
  | @declare name f parameters v h =>
    intro fault hd
    obtain ⟨rfl, _⟩ := declare_eq h
    unfold Variable.declare at h
    simp only [hd] at h
    split at h
    · cases h
    · split at h
      · cases h
      · rename_i hchecked
        obtain ⟨_, _, hfault⟩ := Except.bind_eq_ok_iff.mp hchecked
        cases hfault
  | withElements _ h ih =>
    obtain ⟨rfl, _⟩ := withElements_eq h
    exact ih
  | hyper _ ih => exact ih

/-- The probabilities of a categorical variable are literals. -/
theorem Declared.family_ne_categorical {v : Variable α} (h : v.Declared) {target : String}
    (hmem : .reference target ∈ v.parameters) : v.family ≠ .categorical := by
  induction h with
  | @declare name f parameters v h =>
    obtain ⟨rfl, hlength⟩ := declare_eq h
    rintro rfl
    have hsnd := List.map_snd_zip (Nat.le_of_eq hlength)
    rw [← hsnd] at hmem
    obtain ⟨⟨parameter, _⟩, hparameter, rfl⟩ := List.mem_map.mp hmem
    cases checkParameter_of_declare h hparameter
  | withElements _ h ih =>
    obtain ⟨rfl, _⟩ := withElements_eq h
    exact ih hmem
  | hyper _ ih => exact ih hmem

/-- What a parameter references is among the references of the variable, and nothing else is. -/
theorem Declared.mem_references_iff {v : Variable α} (h : v.Declared) {target : String} :
    (∃ parameter, (parameter, target) ∈ v.references) ↔ .reference target ∈ v.parameters := by
  constructor
  · rintro ⟨parameter, hmem⟩
    obtain ⟨⟨name, binding⟩, hbinding, heq⟩ := List.mem_filterMap.mp hmem
    cases binding with
    | value x => cases heq
    | weights ws => cases heq
    | reference found =>
      cases heq
      exact (List.of_mem_zip hbinding).2
  · intro hmem
    have hbindings : v.bindings.map Prod.snd = v.parameters :=
      List.map_snd_zip (Nat.le_of_eq h.length_parameters)
    rw [← hbindings] at hmem
    obtain ⟨⟨name, binding⟩, hbinding, heq⟩ := List.mem_map.mp hmem
    cases heq
    exact ⟨name, List.mem_filterMap.mpr ⟨_, hbinding, rfl⟩⟩

end Variable

/-- All inputs of a program are declared variables. -/
def Program.Declared (p : Program α) : Prop := ∀ input ∈ p.inputs, input.1.Declared

end InfoFlow
