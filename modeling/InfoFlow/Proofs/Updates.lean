import Mathlib.Data.List.Nodup

namespace InfoFlow.Updates

variable {β : Type}

/-- An array after some updates, each of a position within its bounds or else without effect. -/
abbrev run (updates : List (Nat × β)) (values : Array β) : Array β :=
  updates.foldl (fun values (position, value) => values.setIfInBounds position value) values

variable {updates : List (Nat × β)} {position : Nat} {value : β}

theorem size_run (updates : List (Nat × β)) (values : Array β) :
    (run updates values).size = values.size := by
  induction updates generalizing values with
  | nil => rfl
  | cons update updates ih =>
    rw [run, List.foldl_cons]
    exact (ih _).trans Array.size_setIfInBounds

theorem getElem?_run_of_not_mem (h : position ∉ updates.map Prod.fst) (values : Array β) :
    (run updates values)[position]? = values[position]? := by
  induction updates generalizing values with
  | nil => rfl
  | cons update updates ih =>
    rw [List.map_cons, List.mem_cons, not_or] at h
    rw [run, List.foldl_cons]
    exact (ih h.2 _).trans (Array.getElem?_setIfInBounds_ne (Ne.symm h.1))

theorem getElem?_run_of_mem (hvalue : ∀ x, (position, x) ∈ updates → x = value)
    (h : position ∈ updates.map Prod.fst) {values : Array β} (hposition : position < values.size) :
    (run updates values)[position]? = some value := by
  induction updates generalizing values with
  | nil => cases h
  | cons update updates ih =>
    obtain ⟨k, x⟩ := update
    rw [run, List.foldl_cons]
    by_cases hlater : position ∈ updates.map Prod.fst
    · exact ih (fun y hy => hvalue y (List.mem_cons_of_mem _ hy)) hlater
        (by rwa [Array.size_setIfInBounds])
    · obtain rfl : position = k := (List.mem_cons.mp h).resolve_right hlater
      obtain rfl := hvalue x List.mem_cons_self
      rw [getElem?_run_of_not_mem hlater]
      exact Array.getElem?_setIfInBounds_self_of_lt hposition

/-- Positions that are updated with what a function has for them. -/
theorem getElem?_run_zip_map (f : Nat → β) (positions : List Nat) (values : Array β) (k : Nat) :
    (run (positions.zip (positions.map f)) values)[k]? =
      if k ∈ positions then values[k]?.map fun _ => f k else values[k]? := by
  have hpositions : (positions.zip (positions.map f)).map Prod.fst = positions :=
    List.map_fst_zip (Nat.le_of_eq (List.length_map f).symm)
  split
  · rename_i hk
    rcases Nat.lt_or_ge k values.size with hlt | hge
    · rw [getElem?_run_of_mem (fun x hx => ?_) (hpositions.symm ▸ hk) hlt]
      · rw [Array.getElem?_eq_getElem hlt]
        rfl
      · obtain ⟨n, hn⟩ := List.mem_iff_getElem?.mp hx
        obtain ⟨hposition, hvalue⟩ := List.getElem?_zip_eq_some.mp hn
        rw [List.getElem?_map, hposition] at hvalue
        exact (Option.some.inj hvalue).symm
    · have hout : (run (positions.zip (positions.map f)) values).size ≤ k := by rwa [size_run]
      rw [Array.getElem?_eq_none hge, Array.getElem?_eq_none hout]
      rfl
  · rename_i hk
    exact getElem?_run_of_not_mem (hpositions.symm ▸ hk) values

end InfoFlow.Updates
