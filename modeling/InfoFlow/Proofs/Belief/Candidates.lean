import InfoFlow.Belief.Generator
import InfoFlow.Proofs.Distribution.Rebuilt
import InfoFlow.Proofs.Random.Uniform
import InfoFlow.Proofs.Scalar.Bounds

namespace InfoFlow

open InfoFlow.Random

variable {α σ : Type} [Scalar α]

namespace ValueRange

/-- Ranges that the constructor gives. -/
def IsBuilt (r : ValueRange α) : Prop := ∃ lower upper, ofBounds lower upper = .ok r

open Exact in
theorem ofBounds_real {x y : ℝ} (h : x < y) (hx : |x| ≤ 2 ^ 53) (hy : |y| ≤ 2 ^ 53) :
    ofBounds (real x) (real y) = .ok ⟨real x, real y⟩ := by
  have hlimit : (exactLimit : Exact) = real (2 ^ 53) := by
    unfold exactLimit
    rw [ofNat_eq, Nat.pow_eq, Nat.cast_pow, Nat.cast_ofNat]
  unfold ofBounds
  rw [hlimit]
  simp [pure, Except.pure, abs_real, not_le.mpr h, not_lt.mpr hx, not_lt.mpr hy, -Nat.reducePow]

theorem isBuilt_real {x y : ℝ} (h : x < y) (hx : |x| ≤ 2 ^ 53) (hy : |y| ≤ 2 ^ 53) :
    (⟨.real x, .real y⟩ : ValueRange Exact).IsBuilt := ⟨_, _, ofBounds_real h hx hy⟩

end ValueRange

section Bounds

/-- The candidate points of a distribution are no more than a machine word counts. -/
theorem length_integers_le (r : ValueRange α) (atMost : ℕ) : (r.integers atMost).length ≤ atMost := by
  simp only [ValueRange.integers, List.length_map, List.length_range]
  exact Nat.min_le_right _ _

theorem length_innerEdges (r : ValueRange α) (reference : Distribution α) (low high : α) (m : ℕ)
    (indices : List ℕ) (previous : α) :
    (r.innerEdges reference low high m indices previous).length = indices.length := by
  induction indices generalizing previous with
  | nil => rfl
  | cons i rest ih => simp [ValueRange.innerEdges, ih]

theorem length_bins (r : ValueRange α) (m : ℕ) : (r.bins m).length = m := by
  simp [ValueRange.bins]

/-- As many bins as are asked for, and at least the range itself. -/
theorem length_continuousBins_le (r : ValueRange α) (reference : Option (Distribution α)) (m : ℕ) :
    (r.continuousBins reference m).length ≤ max 1 m := by
  cases reference with
  | none => simp [ValueRange.continuousBins, length_bins]
  | some reference =>
    simp only [ValueRange.continuousBins, ValueRange.quantileBins]
    split
    · simp only [ValueRange.stretches, List.length_zip, List.length_drop, List.length_cons,
        List.length_append, length_innerEdges, List.length_range, List.length_nil]
      omega
    · simp [length_bins]

/-- Coverages fit in machine words. -/
theorem coverage_lt_size (d : Distribution α) (r : ValueRange α) (reference : Option (Distribution α))
    (policy : CoveragePolicy α) : coverage d r reference policy < UInt64.size := by
  unfold coverage
  split
  · have hpoints := length_integers_le (massWindow d r policy.massFloor) policy.maxPoints.toNat
    exact (List.countP_le_length.trans hpoints).trans_lt policy.maxPoints.toNat_lt_size
  · have hbins := length_continuousBins_le r reference policy.minimum.toNat
    have hminimum := policy.minimum.toNat_lt_size
    refine (List.countP_le_length.trans hbins).trans_lt (max_lt ?_ hminimum)
    decide

end Bounds

theorem Distribution.family_ne_categorical {f : Family} {values : List α} {d : Distribution α}
    (h : build f values none = .ok d) : d.family ≠ .categorical := by
  rw [family_of_build h]
  rintro rfl
  have hchecked := (build_eq_ok_iff.mp h).2.2
  cases hchecked

namespace ScalarGenerator

/-- A distribution that the generator may draw: of one of its families, with such a coverage, and it
is enough. -/
structure Draws (g : ScalarGenerator α) (d : Distribution α) (covered : ℕ) : Prop where
  built : ∃ f ∈ g.families, ∃ values, Distribution.build f values none = .ok d
  coverage_eq : g.coverage d = covered
  adequate : g.policy.minimum.toNat ≤ covered

/-- A variable that is declared with a distribution of one of the families, which has such a coverage,
and it is enough. -/
structure Covers (g : ScalarGenerator α) (v : Variable α) (covered : ℕ) : Prop where
  family_mem : v.family ∈ g.families
  distribution : ∃ d, v.distribution? = some (.ok d) ∧ g.coverage d = covered
  adequate : g.policy.minimum.toNat ≤ covered

variable {g : ScalarGenerator α}

/-- A generator stays as it is if one of its families can cover enough. -/
theorem checkReachable_eq {f : Family} (hf : f ∈ g.families)
    (h : g.policy.minimum.toNat ≤ g.maxCoverage f) : g.checkReachable = .ok g := by
  have hbest : g.maxCoverage f ≤ (g.families.map g.maxCoverage).foldl max 0 := by
    rw [List.foldl_max, Nat.zero_max]
    exact List.le_max?_getD_of_mem (List.mem_map_of_mem hf)
  have hadequate : g.isAdequate ((g.families.map g.maxCoverage).foldl max 0) = true :=
    decide_eq_true (h.trans hbest)
  exact if_pos hadequate

theorem Covers.lt_size {v : Variable α} {covered : ℕ} (h : g.Covers v covered) :
    covered < UInt64.size := by
  obtain ⟨d, _, rfl⟩ := h.distribution
  exact coverage_lt_size d g.range g.reference g.policy

variable [RandomWords σ]

variable [LawfulWords α]

end ScalarGenerator

/-- How many elements lists of a length may have. -/
def ListLength.Admits : ListLength → ℕ → Prop
  | .fixed n, m => m = n
  | .between least most, m => least ≤ m ∧ m ≤ most

/-- The length is given in machine words. -/
def ListLength.IsWords : ListLength → Prop
  | .fixed n => n < UInt64.size
  | .between least most => least < UInt64.size ∧ most < UInt64.size

namespace ListGenerator

/-- The names and numbers of elements of the variables that a list of `n` elements is declared as. -/
def outline (g : ListGenerator α) (n : ℕ) : List (String × ℕ) :=
  match g.layout with
  | .shared => [(g.element.name, n)]
  | .perElement => (List.range n).map fun i => (s!"{g.element.name}{i}", 1)

variable [RandomWords σ]

variable [LawfulWords α]

end ListGenerator

namespace Generator

/-- What draws the elements. -/
def element : Generator α → ScalarGenerator α
  | scalar g => g
  | list g => g.element

/-- The names and numbers of elements of the variables that a candidate may declare. -/
def Declares : Generator α → List (String × ℕ) → Prop
  | scalar g, outline => outline = [(g.name, 1)]
  | list g, outline => ∃ n, g.length.Admits n ∧ outline = g.outline n

/-- Generators that the constructors and builders give, for ranges that are built themselves. Lengths of
lists are machine words. -/
inductive IsBuilt : Generator α → Prop
  | int {name range policy g} (hrange : range.IsBuilt)
      (h : ScalarGenerator.int name range policy = .ok g) : IsBuilt (scalar g)
  | float {name range policy g} (hrange : range.IsBuilt)
      (h : ScalarGenerator.float name range policy = .ok g) : IsBuilt (scalar g)
  | withFamilies {g families restricted} (hg : IsBuilt (scalar g))
      (h : g.withFamilies families = .ok restricted) : IsBuilt (scalar restricted)
  | withReference {g reference referring} (hg : IsBuilt (scalar g))
      (h : g.withReference reference = .ok referring) : IsBuilt (scalar referring)
  | withSeed {g} (hg : IsBuilt (scalar g)) (seed : UInt64) : IsBuilt (scalar (g.withSeed seed))
  | ofElements {element length layout g} (hg : IsBuilt (scalar element)) (hlength : length.IsWords)
      (h : ListGenerator.ofElements element length layout = .ok g) : IsBuilt (list g)
  | listWithSeed {g} (hg : IsBuilt (list g)) (seed : UInt64) : IsBuilt (list (g.withSeed seed))

/-- Lists of the length can be drawn; there is nothing to ask of single variables. -/
def IsDrawable : Generator α → Prop
  | scalar _ => True
  | list g => ListGenerator.isPossible g.length = true ∧ g.length.IsWords

variable [RandomWords σ] [LawfulWords α] {g : Generator α}

end Generator

end InfoFlow
