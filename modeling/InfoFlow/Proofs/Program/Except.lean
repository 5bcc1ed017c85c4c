import Mathlib.Data.List.Forall2

namespace List.Forall₂

variable {β γ : Type} {R : β → γ → Prop} {xs : List β} {ys : List γ}

theorem exists_of_mem_left (h : Forall₂ R xs ys) {x : β} (hx : x ∈ xs) : ∃ y ∈ ys, R x y := by
  obtain ⟨i, hi, rfl⟩ := List.mem_iff_getElem.mp hx
  have hlt : i < ys.length := h.length_eq ▸ hi
  exact ⟨ys[i], List.getElem_mem hlt, h.get hi hlt⟩

theorem exists_of_mem_right (h : Forall₂ R xs ys) {y : γ} (hy : y ∈ ys) : ∃ x ∈ xs, R x y :=
  h.flip.exists_of_mem_left hy

theorem exists_of_getElem?_right (h : Forall₂ R xs ys) {i : ℕ} {y : γ} (hy : ys[i]? = some y) :
    ∃ x, xs[i]? = some x ∧ R x y := by
  obtain ⟨hi, rfl⟩ := List.getElem?_eq_some_iff.mp hy
  have hlt : i < xs.length := h.length_eq ▸ hi
  exact ⟨xs[i], List.getElem?_eq_getElem hlt, h.get hlt hi⟩

/-- An entry is replaced by one that is related, too. -/
theorem set (h : Forall₂ R xs ys) {i : ℕ} {x : β} (hx : xs[i]? = some x) {y : γ} (hy : R x y) :
    Forall₂ R xs (ys.set i y) := by
  induction h generalizing i with
  | nil => exact .nil
  | cons hfirst hrest ih =>
    cases i with
    | zero =>
      cases hx
      exact .cons hy hrest
    | succ i => exact .cons hfirst (ih hx)

end List.Forall₂

namespace Except

variable {ε β γ : Type}

theorem bind_eq_ok_iff {x : Except ε β} {f : β → Except ε γ} {c : γ} :
    x >>= f = .ok c ↔ ∃ b, x = .ok b ∧ f b = .ok c := by
  cases x with
  | error e => simp [bind, Except.bind]
  | ok b => simp [bind, Except.bind]

theorem ok_bind (b : β) (f : β → Except ε γ) : (.ok b >>= f : Except ε γ) = f b := rfl

theorem pure_eq_ok_iff {b c : β} : (pure b : Except ε β) = .ok c ↔ b = c :=
  iff_of_eq (Except.ok.injEq b c)

theorem toOption_eq_some_iff {x : Except ε β} {b : β} : x.toOption = some b ↔ x = .ok b := by
  cases x <;> simp [Except.toOption]

/-- An answer that passes a test is an answer. -/
theorem exists_of_any_toOption {x : Except ε β} {p : β → Bool} (h : x.toOption.any p = true) :
    ∃ b, x = .ok b ∧ p b = true := by
  cases x with
  | error e => cases h
  | ok b => exact ⟨b, rfl, h⟩

theorem ite_throw_bind_eq_ok_iff {p : Prop} [Decidable p] {e : ε} {f : β → Except ε γ}
    {x : Except ε γ} {c : γ} : (if p then throw e >>= f else x) = .ok c ↔ ¬ p ∧ x = .ok c := by
  split
  · exact iff_of_false nofun (by tauto)
  · tauto

theorem mapError_eq_ok_iff {ε' : Type} {x : Except ε β} {f : ε → ε'} {b : β} :
    x.mapError f = .ok b ↔ x = .ok b := by
  cases x with
  | error e => exact iff_of_false nofun nofun
  | ok b' => exact iff_of_eq ((Except.ok.injEq b' b).trans (Except.ok.injEq b' b).symm)

theorem mapError_bind {ε' : Type} (e : ε → ε') (x : Except ε β) (f : β → Except ε γ) :
    (x >>= f).mapError e = x.mapError e >>= fun b => (f b).mapError e := by
  cases x <;> rfl

theorem mapM_mapError {ε' : Type} (e : ε → ε') (f : β → Except ε γ) (xs : List β) :
    xs.mapM (fun x => (f x).mapError e) = (xs.mapM f).mapError e := by
  induction xs with
  | nil => rfl
  | cons x xs ih =>
    simp only [List.mapM_cons, ih, mapError_bind]
    rfl

/-- A traversal succeeds exactly when it succeeds at every position. -/
theorem mapM_eq_ok_iff {f : β → Except ε γ} {xs : List β} {ys : List γ} :
    xs.mapM f = .ok ys ↔ List.Forall₂ (fun x y => f x = .ok y) xs ys := by
  induction xs generalizing ys with
  | nil =>
    rw [List.mapM_nil, List.forall₂_nil_left_iff]
    simp [pure, Except.pure, eq_comm]
  | cons x xs ih =>
    rw [List.mapM_cons, bind_eq_ok_iff, List.forall₂_cons_left_iff]
    simp only [bind_eq_ok_iff, ih, pure, Except.pure, Except.ok.injEq]
    constructor
    · rintro ⟨y, hy, rest, hrest, rfl⟩
      exact ⟨y, rest, hy, hrest, rfl⟩
    · rintro ⟨y, rest, hy, hrest, rfl⟩
      exact ⟨y, hy, rest, hrest, rfl⟩

/-- A traversal that succeeds everywhere answers what a map does. -/
theorem mapM_eq_ok_map {f : β → Except ε γ} {g : β → γ} {xs : List β}
    (h : ∀ x ∈ xs, f x = .ok (g x)) : xs.mapM f = .ok (xs.map g) := by
  apply mapM_eq_ok_iff.mpr
  rw [List.forall₂_map_right_iff, List.forall₂_same]
  exact h

/-- A traversal of positions succeeds with a list that has each answer at its position. -/
theorem mapM_range_eq_ok {f : ℕ → Except ε γ} {ys : List γ}
    (h : ∀ i, (hi : i < ys.length) → f i = .ok ys[i]) : (List.range ys.length).mapM f = .ok ys := by
  apply mapM_eq_ok_iff.mpr
  apply List.forall₂_iff_get.mpr
  refine ⟨List.length_range, ?_⟩
  intro i hi hi'
  rw [List.get_eq_getElem, List.getElem_range]
  exact h i hi'

/-- A fold whose steps succeed, as long as they keep some invariant, answers what a plain fold does. -/
theorem foldlM_eq_ok_foldl {f : β → γ → Except ε β} {g : β → γ → β} {I : β → Prop} {xs : List γ}
    {b : β} (hb : I b) (hstep : ∀ b x, I b → x ∈ xs → f b x = .ok (g b x) ∧ I (g b x)) :
    xs.foldlM f b = .ok (xs.foldl g b) := by
  induction xs generalizing b with
  | nil => rfl
  | cons x xs ih =>
    obtain ⟨hfirst, hnext⟩ := hstep b x hb List.mem_cons_self
    rw [List.foldlM_cons, hfirst, List.foldl_cons]
    apply ih hnext
    intro c y hc hy
    exact hstep c y hc (List.mem_cons_of_mem x hy)

/-- Checks of the elements of a list succeed exactly when each of them does. -/
theorem forM_eq_ok_iff {f : β → Except ε Unit} {xs : List β} :
    xs.forM f = .ok () ↔ ∀ x ∈ xs, f x = .ok () := by
  induction xs with
  | nil => simp [pure, Except.pure]
  | cons x xs ih =>
    rw [List.forM, bind_eq_ok_iff, List.forall_mem_cons]
    exact ⟨fun ⟨(), hx, hxs⟩ => ⟨hx, ih.mp hxs⟩, fun ⟨hx, hxs⟩ => ⟨(), hx, ih.mpr hxs⟩⟩

/-- Every answer of a traversal that succeeds is that of some element. -/
theorem exists_of_mem_mapM {f : β → Except ε γ} {xs : List β} {ys : List γ}
    (h : xs.mapM f = .ok ys) {y : γ} (hy : y ∈ ys) : ∃ x ∈ xs, f x = .ok y :=
  (mapM_eq_ok_iff.mp h).exists_of_mem_right hy

end Except

namespace ExceptT

variable {ε ε' δ β γ : Type} {x : ExceptT ε (Except δ) β}

theorem bind_eq_pure_iff {f : β → ExceptT ε (Except δ) γ} {c : γ} :
    x >>= f = pure c ↔ ∃ b, x = pure b ∧ f b = pure c := by
  constructor
  · intro h
    match x with
    | .error _ => cases h
    | .ok (.error _) => cases h
    | .ok (.ok b) => exact ⟨b, rfl, h⟩
  · rintro ⟨b, rfl, h⟩
    exact h

theorem adapt_bind (e : ε → ε') (x : ExceptT ε (Except δ) β) (f : β → ExceptT ε (Except δ) γ) :
    (x >>= f).adapt e = x.adapt e >>= fun b => (f b).adapt e := by
  match x with
  | .error _ => rfl
  | .ok (.error _) => rfl
  | .ok (.ok _) => rfl

theorem adapt_eq_pure_iff {e : ε → ε'} {b : β} : x.adapt e = pure b ↔ x = pure b := by
  constructor
  · intro h
    match x with
    | .error _ => cases h
    | .ok (.error _) => cases h
    | .ok (.ok b') =>
      cases h
      rfl
  · rintro rfl
    rfl

end ExceptT

namespace InfoFlow

/-- Where a partial map is defined throughout a list, positions are kept. -/
theorem getElem?_filterMap_of_isSome {β γ : Type} {f : β → Option γ} {xs : List β}
    (hf : ∀ x ∈ xs, (f x).isSome) (i : Nat) : (xs.filterMap f)[i]? = xs[i]?.bind f := by
  induction xs generalizing i with
  | nil => simp
  | cons x xs ih =>
    obtain ⟨y, hy⟩ := Option.isSome_iff_exists.mp (hf x List.mem_cons_self)
    rw [List.filterMap_cons_some hy]
    cases i with
    | zero => simp [hy]
    | succ i =>
      rw [List.getElem?_cons_succ, List.getElem?_cons_succ]
      exact ih (fun z hz => hf z (List.mem_cons_of_mem x hz)) i

end InfoFlow
