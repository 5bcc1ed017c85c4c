import InfoFlow.Proofs.Leakage.Curve
import InfoFlow.Proofs.Scalar.Quotients

namespace InfoFlow

variable {α : Type} [Scalar α]

section Lists

variable {β : Type} {p : β → Bool} {xs : List β} {n : Nat}

/-- A first part of a list is as long as its first entries allow. -/
theorem le_length_takeWhile_iff :
    n ≤ (xs.takeWhile p).length ↔ n ≤ xs.length ∧ ∀ x ∈ xs.take n, p x = true := by
  induction xs generalizing n with
  | nil => simp
  | cons x xs ih =>
    cases n with
    | zero => simp
    | succ n =>
      rw [List.takeWhile_cons, List.take_succ_cons, List.forall_mem_cons]
      split
      case isTrue hx => simp [hx, ih]
      case isFalse hx => simp [hx]

/-- In decreasing order, the first part of a list whose entries pass a test is made of the entries such that
all larger ones pass it. -/
theorem mem_takeWhile_iff {size : β → Nat} (hxs : xs.Pairwise fun x y => size y < size x) {x : β} :
    x ∈ xs.takeWhile p ↔ x ∈ xs ∧ ∀ y ∈ xs, size x ≤ size y → p y = true := by
  induction xs with
  | nil => simp
  | cons first rest ih =>
    obtain ⟨hfirst, hrest⟩ := List.pairwise_cons.mp hxs
    rw [List.takeWhile_cons]
    by_cases hp : p first = true
    · rw [if_pos hp, List.mem_cons, List.mem_cons, List.forall_mem_cons, ih hrest]
      constructor
      · rintro (rfl | ⟨hx, hlarger⟩)
        · exact ⟨.inl rfl, fun _ => hp, fun y hy hle => absurd hle (Nat.not_le_of_lt (hfirst y hy))⟩
        · exact ⟨.inr hx, fun _ => hp, hlarger⟩
      · rintro ⟨rfl | hx, _, hlarger⟩
        · exact .inl rfl
        · exact .inr ⟨hx, hlarger⟩
    · rw [if_neg hp]
      refine iff_of_false List.not_mem_nil fun ⟨hx, hlarger⟩ => hp ?_
      rcases List.mem_cons.mp hx with rfl | hx
      · exact hlarger x List.mem_cons_self le_rfl
      · exact hlarger first List.mem_cons_self (hfirst x hx).le

end Lists

namespace Convergence

section Offers

omit [Scalar α]

/-- Adds a point in place: what the curve is when the point is refused is what it is afterwards. -/
def pushInPlace (p : CurvePoint α) : StateM (Convergence α) (Except LeakageError Unit) := do
  if let some last := (← get).points.getLast? then
    if p.samples ≤ last.samples then
      return .error (.invalidParams (.pointsMustGrow p.samples last.samples))
  modify fun c => { c with points := c.points ++ [p] }
  return .ok ()

/-- The curve after a point was offered, added or refused. -/
def offer (c : Convergence α) (p : CurvePoint α) : Convergence α := ((pushInPlace p).run c).run.2

/-- The curve after some points were offered, in their order. -/
def offerAll (c : Convergence α) (ps : List (CurvePoint α)) : Convergence α := ps.foldl offer c

variable {c : Convergence α} {p : CurvePoint α}

theorem run_pushInPlace (c : Convergence α) (p : CurvePoint α) : ((pushInPlace p).run c).run =
    match c.push p with
    | .ok c' => (.ok (), c')
    | .error e => (.error e, c) := by
  unfold push pushInPlace
  cases hlast : c.points.getLast? with
  | none => simp [List.getLast?_eq_none_iff.mp hlast]
  | some last =>
    by_cases hle : p.samples ≤ last.samples
    · simp [hlast, hle]
    · simp [hlast, hle]

theorem offer_of_error {e : LeakageError} (h : c.push p = .error e) : c.offer p = c := by
  unfold offer
  rw [run_pushInPlace, h]

theorem offer_of_ok {c' : Convergence α} (h : c.push p = .ok c') : c.offer p = c' := by
  unfold offer
  rw [run_pushInPlace, h]

/-- An offer adds a point with more samples than the last one, and no other. -/
theorem offer_cases (c : Convergence α) (p : CurvePoint α) : c.offer p = c ∨
    (∀ last ∈ c.points.getLast?, last.samples < p.samples) ∧
      c.offer p = { c with points := c.points ++ [p] } := by
  cases h : c.push p with
  | error e => exact .inl (offer_of_error h)
  | ok c' =>
    obtain ⟨hlast, rfl⟩ := push_eq_ok_iff.mp h
    exact .inr ⟨hlast, offer_of_ok h⟩

end Offers

/-- What becomes of an empty curve when points with finite estimates are offered: it keeps some of them, with
more and more samples. -/
structure HasGrown (deltas : List α) (window : Nat) (isRelative : Bool) (c : Convergence α) :
    Prop where
  deltas_eq : c.deltas = deltas
  window_eq : c.window = window
  isRelative_eq : c.isRelative = isRelative
  increasing : c.points.Pairwise fun p q => p.samples < q.samples
  isFinite {p : CurvePoint α} : p ∈ c.points → Scalar.isFinite p.estimate = true

section Growth

variable {deltas : List α} {window : Nat} {isRelative : Bool} {c : Convergence α}

/-- A point with more samples than the last one has more than all of them. -/
theorem HasGrown.lt_of_last (h : HasGrown deltas window isRelative c) {n : Nat}
    (hlast : ∀ last ∈ c.points.getLast?, last.samples < n) {p : CurvePoint α} (hp : p ∈ c.points) :
    p.samples < n := by
  obtain ⟨before, last, heq⟩ := (List.eq_nil_or_concat c.points).resolve_left (List.ne_nil_of_mem hp)
  have hincreasing := h.increasing
  rw [List.concat_eq_append] at heq
  rw [heq, List.pairwise_append] at hincreasing
  have hlt : last.samples < n := hlast last (by simp [heq])
  rw [heq, List.mem_append, List.mem_singleton] at hp
  rcases hp with hp | rfl
  · exact (hincreasing.2.2 p hp last (List.mem_singleton_self last)).trans hlt
  · exact hlt

theorem HasGrown.offer (h : HasGrown deltas window isRelative c) {p : CurvePoint α}
    (hp : Scalar.isFinite p.estimate = true) : HasGrown deltas window isRelative (c.offer p) := by
  rcases offer_cases c p with heq | ⟨hlast, heq⟩
  · rwa [heq]
  · rw [heq]
    refine ⟨h.deltas_eq, h.window_eq, h.isRelative_eq, ?_, ?_⟩
    · refine List.pairwise_append.mpr ⟨h.increasing, List.pairwise_singleton _ p, fun q hq r hr => ?_⟩
      rw [List.mem_singleton.mp hr]
      exact h.lt_of_last hlast hq
    · intro q hq
      rcases List.mem_append.mp hq with hq | hq
      · exact h.isFinite hq
      · rwa [List.mem_singleton.mp hq]

theorem HasGrown.offerAll (h : HasGrown deltas window isRelative c) {ps : List (CurvePoint α)}
    (hps : ∀ p ∈ ps, Scalar.isFinite p.estimate = true) :
    HasGrown deltas window isRelative (c.offerAll ps) := by
  induction ps generalizing c with
  | nil => exact h
  | cons p ps ih =>
    obtain ⟨hp, hps⟩ := List.forall_mem_cons.mp hps
    exact ih (h.offer hp) hps

end Growth

/-- Whether a point is within `delta` of the last estimate. -/
def isNear (c : Convergence α) (delta : α) (p : CurvePoint α) : Bool :=
  c.points.getLast?.any fun last => estimateDistance c.isRelative p.estimate last.estimate ≤ delta

/-- From a sample size of the curve on, every point is within `delta` of the last estimate. -/
structure IsStableFrom (c : Convergence α) (delta : α) (s : Nat) : Prop where
  exists_samples : ∃ p ∈ c.points, p.samples = s
  near {p : CurvePoint α} : p ∈ c.points → s ≤ p.samples → c.isNear delta p = true

/-- The smallest sample size that the curve is stable from, if there are at least as many points from there on
as the window asks for. -/
structure ConvergesFrom (c : Convergence α) (delta : α) (s : Nat) : Prop where
  isLeast : IsLeast {t | c.IsStableFrom delta t} s
  window_le : c.window ≤ c.points.countP fun p => s ≤ p.samples

section Tail

variable {c : Convergence α} {delta : α} {s : Nat}

theorem stableTail_eq (c : Convergence α) (delta : α) :
    c.stableTail delta = c.points.reverse.takeWhile (c.isNear delta) := by
  unfold stableTail isNear
  cases h : c.points.getLast? with
  | none => simp [List.getLast?_eq_none_iff.mp h]
  | some last => rfl

theorem isNear_mono [LawfulOrder α] {larger : α} (hle : delta ≤ larger) {p : CurvePoint α}
    (h : c.isNear delta p = true) : c.isNear larger p = true := by
  unfold isNear at h ⊢
  rw [Option.any_eq_true_iff_get] at h ⊢
  obtain ⟨hsome, h⟩ := h
  rw [decide_eq_true_iff] at h
  exact ⟨hsome, decide_eq_true (LawfulOrder.le_trans h hle)⟩

variable (hgrows : c.points.Pairwise fun p q => p.samples < q.samples)

include hgrows

theorem mem_stableTail {p : CurvePoint α} :
    p ∈ c.stableTail delta ↔ p ∈ c.points ∧ c.IsStableFrom delta p.samples := by
  rw [stableTail_eq, mem_takeWhile_iff (List.pairwise_reverse.mpr hgrows)]
  simp only [List.mem_reverse]
  constructor
  · rintro ⟨hp, hnear⟩
    exact ⟨hp, ⟨p, hp, rfl⟩, fun hq hle => hnear _ hq hle⟩
  · rintro ⟨hp, hstable⟩
    exact ⟨hp, fun q hq hle => hstable.near hq hle⟩

theorem stableFrom?_eq_some_iff :
    c.stableFrom? delta = some s ↔ IsLeast {t | c.IsStableFrom delta t} s := by
  have hlast {p : CurvePoint α} (hp : (c.stableTail delta).getLast? = some p) :
      IsLeast {t | c.IsStableFrom delta t} p.samples := by
    refine ⟨((mem_stableTail hgrows).mp (List.mem_of_getLast? hp)).2, fun t ht => ?_⟩
    obtain ⟨q, hq, rfl⟩ := ht.exists_samples
    obtain ⟨before, heq⟩ := List.getLast?_eq_some_iff.mp hp
    have hdecreasing : (c.stableTail delta).Pairwise fun p q => q.samples < p.samples := by
      rw [stableTail_eq]
      exact (List.pairwise_reverse.mpr hgrows).sublist (List.takeWhile_sublist _)
    have hmem := (mem_stableTail hgrows).mpr ⟨hq, ht⟩
    rw [heq, List.pairwise_append] at hdecreasing
    rw [heq, List.mem_append, List.mem_singleton] at hmem
    rcases hmem with hmem | rfl
    · exact (hdecreasing.2.2 q hmem p (List.mem_singleton_self p)).le
    · exact le_rfl
  unfold stableFrom?
  rw [Option.map_eq_some_iff]
  constructor
  · rintro ⟨p, hp, rfl⟩
    exact hlast hp
  · intro hleast
    obtain ⟨q, hq, rfl⟩ := hleast.1.exists_samples
    have hmem := (mem_stableTail hgrows).mpr ⟨hq, hleast.1⟩
    have hp := List.getLast?_eq_some_getLast (List.ne_nil_of_mem hmem)
    exact ⟨_, hp, (hlast hp).unique hleast⟩

/-- The tail has all points from the smallest size on that the curve is stable from. -/
theorem length_stableTail (hleast : IsLeast {t | c.IsStableFrom delta t} s) :
    (c.stableTail delta).length = c.points.countP fun p => s ≤ p.samples := by
  have hsplit : c.stableTail delta ++ c.points.reverse.dropWhile (c.isNear delta) =
      c.points.reverse := by
    rw [stableTail_eq]
    exact List.takeWhile_append_dropWhile
  have hdecreasing := List.pairwise_reverse.mpr hgrows
  rw [← hsplit, List.pairwise_append] at hdecreasing
  have hinside : ∀ p ∈ c.stableTail delta, decide (s ≤ p.samples) = true := fun p hp =>
    decide_eq_true (hleast.2 ((mem_stableTail hgrows).mp hp).2)
  have houtside : ∀ p ∈ c.points.reverse.dropWhile (c.isNear delta),
      ¬ decide (s ≤ p.samples) = true := by
    intro p hp hle
    rw [decide_eq_true_iff] at hle
    have hmem : p ∈ c.points :=
      List.mem_reverse.mp ((List.dropWhile_sublist _).subset hp)
    have hstable : c.IsStableFrom delta p.samples :=
      ⟨⟨p, hmem, rfl⟩, fun hq hge => hleast.1.near hq (hle.trans hge)⟩
    exact lt_irrefl _ (hdecreasing.2.2 p ((mem_stableTail hgrows).mpr ⟨hmem, hstable⟩) p hp)
  rw [← List.countP_reverse, ← hsplit, List.countP_append, List.countP_eq_length.mpr hinside,
    List.countP_eq_zero.mpr houtside, Nat.add_zero]

theorem convergedAt?_eq_some_iff : c.convergedAt? delta = some s ↔ c.ConvergesFrom delta s := by
  unfold convergedAt?
  split
  case isTrue hshort =>
    refine iff_of_false (by simp) fun h => ?_
    rw [length_stableTail hgrows h.isLeast] at hshort
    exact Nat.not_le_of_lt hshort h.window_le
  case isFalse hlong =>
    rw [stableFrom?_eq_some_iff hgrows]
    refine ⟨fun h => ⟨h, ?_⟩, ConvergesFrom.isLeast⟩
    rw [← length_stableTail hgrows h]
    exact Nat.le_of_not_lt hlong

omit hgrows in
/-- The curve has converged once its tail is as long as the window. -/
theorem isSome_convergedAt? (hwindow : c.window ≠ 0) :
    (c.convergedAt? delta).isSome = true ↔ c.window ≤ (c.stableTail delta).length := by
  unfold convergedAt? stableFrom?
  split
  case isTrue hshort => simpa using hshort
  case isFalse hlong =>
    have hne : c.stableTail delta ≠ [] := List.ne_nil_of_length_pos (by omega)
    simpa [hne] using hlong

theorem convergedAt?_mono [LawfulOrder α] {larger : α} (hle : delta ≤ larger)
    (h : c.convergedAt? delta = some s) : ∃ t ≤ s, c.convergedAt? larger = some t := by
  have hconverges := (convergedAt?_eq_some_iff hgrows).mp h
  have hstable : c.IsStableFrom larger s := by
    refine ⟨hconverges.isLeast.1.exists_samples, fun hp hge => ?_⟩
    exact isNear_mono hle (hconverges.isLeast.1.near hp hge)
  have hleast : IsLeast {t | c.IsStableFrom larger t} (sInf {t | c.IsStableFrom larger t}) :=
    ⟨Nat.sInf_mem ⟨s, hstable⟩, fun t ht => Nat.sInf_le ht⟩
  have hinf := hleast.2 hstable
  refine ⟨_, hinf, (convergedAt?_eq_some_iff hgrows).mpr ⟨hleast, ?_⟩⟩
  refine hconverges.window_le.trans (List.countP_mono_left fun p _ hge => ?_)
  rw [decide_eq_true_iff] at hge ⊢
  exact hinf.trans hge

/-- All deltas have been reached once the smallest one has. -/
theorem allConverged_iff [LawfulOrder α] {smallest : α} (hmem : smallest ∈ c.deltas)
    (hle : ∀ d ∈ c.deltas, smallest ≤ d) :
    c.allConverged = true ↔ (c.convergedAt? smallest).isSome = true := by
  unfold allConverged
  rw [List.all_eq_true]
  refine ⟨fun h => h smallest hmem, fun h d hd => ?_⟩
  obtain ⟨s, hs⟩ := Option.isSome_iff_exists.mp h
  obtain ⟨t, _, ht⟩ := convergedAt?_mono hgrows (hle d hd) hs
  exact Option.isSome_iff_exists.mpr ⟨t, ht⟩

end Tail

section Spread

variable [LawfulOrder α]

/-- The largest of some numbers does not exceed a bound exactly when none of them does. -/
theorem foldl_larger_le_iff {β : Type} {f : β → α} {xs : List β} {start b : α}
    (hstart : Scalar.isNaN start = false) (hxs : ∀ x ∈ xs, Scalar.isNaN (f x) = false) :
    xs.foldl (fun largest x => if Scalar.totalLe largest (f x) then f x else largest) start ≤ b ↔
      start ≤ b ∧ ∀ x ∈ xs, f x ≤ b := by
  induction xs generalizing start with
  | nil => simp
  | cons x xs ih =>
    obtain ⟨hx, hxs⟩ := List.forall_mem_cons.mp hxs
    rw [List.foldl_cons, List.forall_mem_cons, ← and_assoc]
    by_cases hle : start ≤ f x
    · rw [if_pos (by simp [Scalar.totalLe, hle]), ih hx hxs]
      exact and_congr_left fun _ =>
        ⟨fun h => ⟨LawfulOrder.le_trans hle h, h⟩, And.right⟩
    · rw [if_neg (by simp [Scalar.totalLe, hx, hle]), ih hstart hxs]
      have hge : f x ≤ start := (LawfulOrder.le_or_le hstart hx).resolve_left hle
      exact and_congr_left fun _ =>
        ⟨fun h => ⟨h, LawfulOrder.le_trans hge h⟩, And.left⟩

variable [LawfulBounds α] [LawfulGaps α] [LawfulQuotients α]

/-- Finite estimates have a distance. Where the relative one has no number, it is infinite. -/
theorem isNaN_estimateDistance (isRelative : Bool) {x y : α} (hx : Scalar.isFinite x = true)
    (hy : Scalar.isFinite y = true) : Scalar.isNaN (estimateDistance isRelative x y) = false := by
  have hdifference := Scalar.isNaN_abs_sub hx hy
  unfold estimateDistance
  dsimp only
  split
  · exact hdifference
  · split
    case isTrue hne =>
      refine LawfulQuotients.isNaN_div hdifference (LawfulQuotients.isFinite_abs hy) ?_
      rw [LawfulQuotients.abs_beq_zero hy]
      simpa using hne
    case isFalse =>
      split
      · exact LawfulOrder.isNaN_zero
      · exact (LawfulBounds.isNaN_of_le (LawfulBounds.le_infinity LawfulOrder.isNaN_zero)).2

variable {c : Convergence α} {delta : α}

theorem spread_le_iff (hfinite : ∀ p ∈ c.points, Scalar.isFinite p.estimate = true)
    (hwindow : c.window ≠ 0) : (∃ x ∈ c.spread?, x ≤ delta) ↔
      c.points ≠ [] ∧ ∀ p ∈ c.points.reverse.take c.window, c.isNear delta p = true := by
  obtain ⟨n, hn⟩ := Nat.exists_eq_succ_of_ne_zero hwindow
  unfold spread? isNear
  rw [List.getLast?_eq_head?_reverse, hn]
  cases h : c.points.reverse with
  | nil => simp [List.reverse_eq_nil_iff.mp h]
  | cons last before =>
    have hne : c.points ≠ [] := fun hnil => by simp [hnil] at h
    have hmem : ∀ p ∈ last :: before, Scalar.isFinite p.estimate = true := fun p hp =>
      hfinite p (List.mem_reverse.mp (h ▸ hp))
    have hnumber : ∀ p ∈ last :: before, Scalar.isNaN
        (estimateDistance c.isRelative p.estimate last.estimate) = false := fun p hp =>
      isNaN_estimateDistance c.isRelative (hmem p hp) (hmem last List.mem_cons_self)
    have hbefore : ∀ p ∈ before.take n, Scalar.isNaN
        (estimateDistance c.isRelative p.estimate last.estimate) = false := fun p hp =>
      hnumber p (List.mem_cons_of_mem _ (List.mem_of_mem_take hp))
    have hlargest := foldl_larger_le_iff (b := delta) (hnumber last List.mem_cons_self) hbefore
    simpa [hne] using hlargest

/-- Once there are as many points as the window asks for, the spread tells where the curve has converged. -/
theorem isSome_convergedAt?_iff_spread
    (hfinite : ∀ p ∈ c.points, Scalar.isFinite p.estimate = true) (hwindow : c.window ≠ 0)
    (hlong : c.window ≤ c.points.length) :
    (c.convergedAt? delta).isSome = true ↔ ∃ x ∈ c.spread?, x ≤ delta := by
  have hne : c.points ≠ [] := List.ne_nil_of_length_pos (by omega)
  rw [isSome_convergedAt? hwindow, stableTail_eq, le_length_takeWhile_iff, List.length_reverse,
    spread_le_iff hfinite hwindow, and_iff_right hlong, and_iff_right hne]

end Spread

/-- What a curve tells about its points. A bound may be any number here, positive or not. -/
structure IsJudged (deltas : List α) (window : Nat) (isRelative : Bool) (c : Convergence α) :
    Prop where
  settings : c.window = window ∧ c.isRelative = isRelative
  refused_unchanged {p : CurvePoint α} {e : LeakageError} : c.push p = .error e → c.offer p = c
  increasing : (c.points.map CurvePoint.samples).Pairwise (· < ·)
  converged {delta : α} {s : Nat} : c.convergedAt? delta = some s ↔ c.ConvergesFrom delta s
  monotone {delta larger : α} {s : Nat} : delta ≤ larger → c.convergedAt? delta = some s →
    ∃ t ≤ s, c.convergedAt? larger = some t
  smallest : ∃ d ∈ deltas, (∀ e ∈ deltas, d ≤ e) ∧
    (c.allConverged = true ↔ (c.convergedAt? d).isSome = true)
  spread {delta : α} : window ≤ c.points.length →
    ((c.convergedAt? delta).isSome = true ↔ ∃ x ∈ c.spread?, x ≤ delta)

section Judged

variable [LawfulOrder α]

/-- The first of the sorted deltas is the smallest of those that were given. -/
theorem exists_smallest {deltas sorted : List α} (hne : deltas ≠ []) (h : IsSorting deltas sorted) :
    ∃ d ∈ sorted, ∀ e ∈ deltas, d ≤ e := by
  obtain ⟨e, he⟩ := List.exists_mem_of_ne_nil _ hne
  obtain ⟨d, hd, _⟩ := h.exists_beq he
  obtain ⟨first, rest, rfl⟩ := List.exists_cons_of_ne_nil (List.ne_nil_of_mem hd)
  refine ⟨first, List.mem_cons_self, fun e he => ?_⟩
  obtain ⟨y, hy, hbeq⟩ := h.exists_beq he
  have hle := (LawfulOrder.beq_iff_le_le.mp hbeq).2
  rcases List.mem_cons.mp hy with rfl | hy
  · exact hle
  · exact LawfulOrder.le_trans (Scalar.le_of_lt ((List.pairwise_cons.mp h.increasing).1 y hy)) hle

variable [LawfulBounds α] [LawfulGaps α] [LawfulQuotients α]

/-- Whatever points with finite estimates are offered to an empty curve, its queries agree: on the smallest
size from which on the points are within a bound of the last one, on the order of the bounds, and on the
spread of the last points. -/
theorem isJudged_offerAll {deltas : List α} {window : Nat} {isRelative : Bool}
    {empty : Convergence α} (hstart : start deltas window isRelative = .ok empty)
    {pushes : List (CurvePoint α)} (hpushes : ∀ p ∈ pushes, Scalar.isFinite p.estimate = true) :
    (empty.offerAll pushes).IsJudged deltas window isRelative := by
  obtain ⟨hdeltas, hwindow, rfl⟩ := start_eq_ok_iff.mp hstart
  have hempty : HasGrown (withoutRepeats (deltas.mergeSort Scalar.totalLe)) window isRelative
      ⟨withoutRepeats (deltas.mergeSort Scalar.totalLe), window, isRelative, []⟩ :=
    ⟨rfl, rfl, rfl, .nil, fun hp => absurd hp List.not_mem_nil⟩
  have hgrown := hempty.offerAll hpushes
  generalize offerAll _ pushes = c at hgrown
  obtain ⟨hsorted, rfl, rfl, hincreasing, hfinite⟩ := hgrown
  constructor
  case settings => exact ⟨rfl, rfl⟩
  case refused_unchanged => exact offer_of_error
  case increasing => exact List.pairwise_map.mpr hincreasing
  case converged => exact convergedAt?_eq_some_iff hincreasing
  case monotone => exact convergedAt?_mono hincreasing
  case smallest =>
    have hsorting := isSorting_sortedDeltas hdeltas
    rw [← hsorted] at hsorting
    obtain ⟨d, hd, hle⟩ := exists_smallest hdeltas.ne_nil hsorting
    exact ⟨d, hsorting.subset hd, hle,
      allConverged_iff hincreasing hd fun e he => hle e (hsorting.subset he)⟩
  case spread => exact isSome_convergedAt?_iff_spread (fun _ hp => hfinite hp) hwindow

/-- A curve that ends in two zeros, after a point that it refuses, judged by relative distances. -/
theorem twoZeros_isJudged : ∃ empty : Convergence Exact, start [1] 2 true = .ok empty ∧
    (∀ p ∈ [⟨100, 1⟩, ⟨200, 0⟩, ⟨150, 1⟩, (⟨300, 0⟩ : CurvePoint Exact)],
      Scalar.isFinite p.estimate = true) ∧
    ((empty.offerAll [⟨100, 1⟩, ⟨200, 0⟩, ⟨150, 1⟩, ⟨300, 0⟩]).points.map CurvePoint.samples) =
      [100, 200, 300] ∧
    (empty.offerAll [⟨100, 1⟩, ⟨200, 0⟩, ⟨150, 1⟩, ⟨300, 0⟩]).IsJudged [1] 2 true := by
  have hstart : start [(1 : Exact)] 2 true = .ok _ :=
    start_eq_ok_iff.mpr ⟨areDeltas_one, by decide, rfl⟩
  have hpushes : ∀ p ∈ [⟨100, 1⟩, ⟨200, 0⟩, ⟨150, 1⟩, (⟨300, 0⟩ : CurvePoint Exact)],
      Scalar.isFinite p.estimate = true := by
    simp [Exact.isFinite_iff, Exact.zero_eq, Exact.one_eq]
  exact ⟨_, hstart, hpushes, rfl, isJudged_offerAll hstart hpushes⟩

end Judged

end Convergence

end InfoFlow
