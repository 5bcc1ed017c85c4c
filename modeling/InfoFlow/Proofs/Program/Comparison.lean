import InfoFlow.Program.Observation
import InfoFlow.Proofs.Program.Except
import InfoFlow.Proofs.Program.Selector
import InfoFlow.Proofs.Scalar.Order

namespace InfoFlow

namespace Observation

section Cuts

/-- A text is made of operands and operators in turn: operands have no operator characters, and
operators nothing else. Only after the last operator the operand may be empty. -/
inductive IsCut : List Char → List Char → List (List Char × List Char) → Prop where
  | operand {cs : List Char} : (∀ c ∈ cs, isOperatorChar c = false) → IsCut cs cs []
  | operator {first operator rest next : List Char} {more : List (List Char × List Char)} :
      (∀ c ∈ first, isOperatorChar c = false) → operator ≠ [] →
      (∀ c ∈ operator, isOperatorChar c = true) → (next = [] → rest = []) → IsCut rest next more →
      IsCut (first ++ operator ++ rest) first ((operator, next) :: more)

variable {cs first : List Char} {more : List (List Char × List Char)}

theorem cut_operand (h : ∀ c ∈ cs, isOperatorChar c = false) : cut cs = (cs, []) := by
  have htake : cs.takeWhile (!isOperatorChar ·) = cs :=
    List.takeWhile_eq_self_iff.mpr fun c hc => by simp [h c hc]
  have hdrop : cs.dropWhile (!isOperatorChar ·) = [] :=
    List.dropWhile_eq_nil_iff.mpr fun c hc => by simp [h c hc]
  unfold cut
  rw [htake]
  split
  · rfl
  · rename_i hrest
    rw [hdrop] at hrest
    cases hrest

theorem cut_operator {operator rest : List Char} (hfirst : ∀ c ∈ first, isOperatorChar c = false)
    (hne : operator ≠ []) (hoperator : ∀ c ∈ operator, isOperatorChar c = true)
    (hrest : rest.takeWhile isOperatorChar = []) :
    cut (first ++ operator ++ rest) = (first, (operator, (cut rest).1) :: (cut rest).2) := by
  obtain ⟨o, os, rfl⟩ := List.exists_cons_of_ne_nil hne
  rw [List.forall_mem_cons] at hoperator
  have hstops : (!isOperatorChar o) = false := by simp [hoperator.1]
  have hpass : ∀ c ∈ first, (!isOperatorChar c) = true := fun c hc => by simp [hfirst c hc]
  have htake : (first ++ o :: os ++ rest).takeWhile (!isOperatorChar ·) = first := by
    rw [List.append_assoc, List.takeWhile_append_of_pos hpass, List.cons_append,
      List.takeWhile_cons_of_neg (by simp [hstops]), List.append_nil]
  have hdrop : (first ++ o :: os ++ rest).dropWhile (!isOperatorChar ·) = o :: (os ++ rest) := by
    rw [List.append_assoc, List.dropWhile_append_of_pos hpass, List.cons_append,
      List.dropWhile_cons_of_neg (by simp [hstops])]
  have hrun : (os ++ rest).takeWhile isOperatorChar = os := by
    rw [List.takeWhile_append_of_pos hoperator.2, hrest, List.append_nil]
  have hleft : (os ++ rest).dropWhile isOperatorChar = rest := by
    have hall := List.takeWhile_append_dropWhile (p := isOperatorChar) (l := rest)
    rw [hrest, List.nil_append] at hall
    rw [List.dropWhile_append_of_pos hoperator.2, hall]
  rw [cut, htake]
  split
  · rename_i hnone
    rw [hdrop] at hnone
    cases hnone
  · rename_i hsome
    rw [hdrop] at hsome
    cases hsome
    rw [hrun, hleft]

/-- A text that starts with an operand does not start with an operator. -/
theorem IsCut.takeWhile_eq_nil (h : IsCut cs first more) (hne : first = [] → cs = []) :
    cs.takeWhile isOperatorChar = [] := by
  cases h with
  | operand hcs =>
    cases cs with
    | nil => rfl
    | cons c cs => exact List.takeWhile_cons_of_neg (by simp [hcs c List.mem_cons_self])
  | operator hfirst hoperator _ _ _ =>
    cases first with
    | nil => simp [hoperator] at hne
    | cons c first => exact List.takeWhile_cons_of_neg (by simp [hfirst c List.mem_cons_self])

/-- Where an operator has ended, an operand starts, unless the text ends. -/
theorem IsCut.eq_nil_of_dropWhile (h : IsCut (cs.dropWhile isOperatorChar) first more)
    (hfirst : first = []) : cs.dropWhile isOperatorChar = [] := by
  generalize hrest : cs.dropWhile isOperatorChar = rest at h
  cases h with
  | operand _ => exact hfirst
  | operator _ hne hoperator _ _ =>
    subst hfirst
    obtain ⟨o, os, rfl⟩ := List.exists_cons_of_ne_nil hne
    have hstop := List.head?_dropWhile_not isOperatorChar cs
    rw [hrest] at hstop
    simp [hoperator o List.mem_cons_self] at hstop

theorem isCut_cut (cs : List Char) : IsCut cs (cut cs).1 (cut cs).2 := by
  fun_induction cut cs with
  | case1 cs first hnone =>
    have hall := List.takeWhile_append_dropWhile (p := (!isOperatorChar ·)) (l := cs)
    rw [hnone, List.append_nil] at hall
    have hfirst : first = cs := hall
    rw [hfirst]
    refine .operand fun c hc => ?_
    simpa using List.takeWhile_eq_self_iff.mp hall c hc
  | case2 cs first o rest hsome operator next more hcut ih =>
    rw [hcut] at ih
    have hall := List.takeWhile_append_dropWhile (p := (!isOperatorChar ·)) (l := cs)
    rw [hsome] at hall
    have hrest := List.takeWhile_append_dropWhile (p := isOperatorChar) (l := rest)
    have hcs : cs = first ++ operator ++ rest.dropWhile isOperatorChar := by
      rw [List.append_assoc, List.cons_append, hrest, hall]
    have hstart : isOperatorChar o = true := by
      have hstop := List.head?_dropWhile_not (!isOperatorChar ·) cs
      simpa [hsome] using hstop
    rw [hcs]
    refine .operator (fun c hc => ?_) (by simp [operator]) (fun c hc => ?_)
      ih.eq_nil_of_dropWhile ih
    · simpa using List.mem_takeWhile_imp hc
    · rcases List.mem_cons.mp hc with rfl | hc
      · exact hstart
      · exact List.mem_takeWhile_imp hc

/-- The operands and operators of a text are those it is cut into. -/
theorem cut_eq_iff : cut cs = (first, more) ↔ IsCut cs first more := by
  constructor
  · intro h
    have hcut := isCut_cut cs
    rwa [h] at hcut
  · intro h
    induction h with
    | operand hcs => exact cut_operand hcs
    | operator hfirst hne hoperator hlast hrest ih =>
      rw [cut_operator hfirst hne hoperator (hrest.takeWhile_eq_nil hlast), ih]

/-- A text that ends with an operand does not end in an operator. -/
theorem IsCut.endsInOperator_eq (h : IsCut cs first more) (hfirst : first ≠ [])
    (hmore : ∀ part ∈ more, part.2 ≠ []) : endsInOperator cs = false := by
  induction h with
  | @operand cs hcs =>
    obtain ⟨c, hc⟩ := Option.isSome_iff_exists.mp (List.getLast?_isSome.mpr hfirst)
    simp [endsInOperator, hc, hcs c (List.mem_of_getLast? hc)]
  | @operator first operator rest next more _ _ _ _ hrest ih =>
    rw [List.forall_mem_cons] at hmore
    have hne : rest ≠ [] := by
      rintro rfl
      have hcut := cut_eq_iff.mpr hrest
      rw [cut_operand (by simp)] at hcut
      exact hmore.1 (Prod.mk.inj hcut).1.symm
    have hlast := ih hmore.1 hmore.2
    unfold endsInOperator at hlast ⊢
    rwa [List.getLast?_append_of_ne_nil _ hne]

end Cuts

end Observation

section Comparisons

/-- A comparison as it is written: operands with relations between them. An operand that is no number
stands for the variable. -/
structure Comparison (α : Type) where
  first : Option α
  rest : List (Relation × Option α)

namespace Comparison

variable {α : Type}

def operands (c : Comparison α) : List (Option α) := c.first :: c.rest.map (·.2)

variable [Scalar α]

/-- Whether each number is related to the next one. -/
def holdsAlong (a : α) : List (Relation × α) → Bool
  | [] => true
  | (r, b) :: rest => r.holds a b && holdsAlong b rest

/-- Whether the comparison is true with `x` in place of the variable. -/
def holdsAt (c : Comparison α) (x : α) : Bool :=
  holdsAlong (c.first.getD x) (c.rest.map fun (r, operand) => (r, operand.getD x))

/-- Constraints on the variable of a comparison with one or two numbers. -/
inductive Constrains : Comparison α → List (Relation × α) → Prop where
  | left (r : Relation) (b : α) : Constrains ⟨none, [(r, some b)]⟩ [(r, b)]
  | right (a : α) (r : Relation) : Constrains ⟨some a, [(r, none)]⟩ [(r.flip, a)]
  | between (a : α) (r s : Relation) (b : α) : r ≠ .eq → s ≠ .eq →
      Constrains ⟨some a, [(r, none), (s, some b)]⟩ [(r.flip, a), (s, b)]

end Comparison

variable {α : Type} [Scalar α] [LawfulOrder α]

theorem Relation.holds_flip (r : Relation) (x a : α) : r.flip.holds x a = r.holds a x := by
  cases r with
  | eq => exact Scalar.beq_comm x a
  | lt | le | gt | ge => rfl

/-- The constraints hold of the values of which the comparison is true. -/
theorem Comparison.Constrains.forall_holds_iff {c : Comparison α} {ks : List (Relation × α)}
    (h : c.Constrains ks) (x : α) :
    (∀ k ∈ ks, k.1.holds x k.2 = true) ↔ c.holdsAt x = true := by
  cases h with
  | left r b => simp [holdsAt, holdsAlong]
  | right a r => simp [holdsAt, holdsAlong, Relation.holds_flip]
  | between a r s b _ _ => simp [holdsAt, holdsAlong, Relation.holds_flip]

end Comparisons

namespace Observation

variable {α : Type} [Scalar α] {cs target : List Char}

section Reading

variable {r s : Relation} {a b x : List Char} {ks : List (Relation × α)}

theorem readBound?_eq_ok_iff {operand : List Char} {x : α} :
    readBound? operand = .ok x ↔ Decimal.read? (String.ofList operand) = some x := by
  unfold readBound?
  cases Decimal.read? (α := α) (String.ofList operand) <;> simp

theorem readRelation?_eq_ok_iff {operator : List Char} :
    readRelation? operator = .ok r ↔ Relation.ofSymbol? (String.ofList operator) = some r := by
  unfold readRelation?
  cases Relation.ofSymbol? (String.ofList operator) <;> simp

theorem ofPair_eq_ok_iff : ofPair a r b = .ok (target, ks) ↔
    (isSelector a = true ∧ a = target ∧
        ∃ y, Decimal.read? (String.ofList b) = some y ∧ ks = [(r, y)]) ∨
      (isSelector a = false ∧ b = target ∧
        ∃ y, Decimal.read? (String.ofList a) = some y ∧ ks = [(r.flip, y)]) := by
  unfold ofPair
  cases isSelector a <;>
    simp only [if_true, Bool.false_eq_true, if_false, Except.bind_eq_ok_iff, readBound?_eq_ok_iff,
      Except.pure_eq_ok_iff] <;> aesop

theorem ofChain_eq_ok_iff : ofChain a r x s b = .ok (target, ks) ↔
    isSelector x = true ∧ x = target ∧ r ≠ .eq ∧ s ≠ .eq ∧ ∃ low high,
      Decimal.read? (String.ofList a) = some low ∧ Decimal.read? (String.ofList b) = some high ∧
      ks = [(r.flip, low), (s, high)] := by
  unfold ofChain
  simp only [Except.ite_throw_bind_eq_ok_iff, Except.bind_eq_ok_iff, readBound?_eq_ok_iff,
    Except.pure_eq_ok_iff]
  aesop

/-- Constraints that have been read are returned if all bounds are finite. -/
theorem finiteBounds_eq_ok_iff {x : Except ObservationFault (List Char × List (Relation × α))} :
    (do
      let (target, constraints) ← x
      if constraints.any fun (_, bound) => !Scalar.isFinite bound then
        throw ObservationFault.infiniteBound
      return (target, constraints)) = .ok (target, ks) ↔
    x = .ok (target, ks) ∧ ∀ k ∈ ks, Scalar.isFinite k.2 = true := by
  simp only [Except.bind_eq_ok_iff, Except.ite_throw_bind_eq_ok_iff, Except.pure_eq_ok_iff]
  constructor
  · rintro ⟨⟨t, found⟩, hx, hfinite, heq⟩
    cases heq
    exact ⟨hx, by simpa using hfinite⟩
  · rintro ⟨hx, hfinite⟩
    exact ⟨_, hx, by simpa using hfinite, rfl⟩

variable {first operator next operator' last : List Char}

theorem length_cut_of_readConstraints (h : readConstraints cs = .ok (target, ks)) :
    (cut cs).2.length = 1 ∨ (cut cs).2.length = 2 := by
  obtain ⟨hshape, _⟩ := Except.ite_throw_bind_eq_ok_iff.mp h
  simp only [List.isEmpty_map, List.length_map, Bool.or_eq_true, List.isEmpty_iff,
    decide_eq_true_eq, not_or] at hshape
  have hpos := List.length_pos_iff.mpr hshape.1.1
  omega

theorem readConstraints_pair (hcut : cut cs = (first, [(operator, next)])) :
    readConstraints cs = .ok (target, ks) ↔ endsInOperator cs = false ∧
      (Text.trim first ≠ [] ∧ Text.trim next ≠ []) ∧
      [Text.trim first, Text.trim next].countP isSelector = 1 ∧
      ∃ r, Relation.ofSymbol? (String.ofList operator) = some r ∧
        ofPair (Text.trim first) r (Text.trim next) = .ok (target, ks) ∧
        ∀ k ∈ ks, Scalar.isFinite k.2 = true := by
  unfold readConstraints
  simp only [hcut, Except.ite_throw_bind_eq_ok_iff, Except.bind_eq_ok_iff, List.mapM_cons,
    List.mapM_nil, List.map_cons, List.map_nil, Except.pure_eq_ok_iff, readRelation?_eq_ok_iff]
  constructor
  · rintro ⟨hshape, hoperands, _, ⟨r, hr, _, rfl, rfl⟩, hcount, hread⟩
    exact ⟨by simpa using hshape, by simpa using hoperands, not_not.mp hcount, r, hr,
      finiteBounds_eq_ok_iff.mp hread⟩
  · rintro ⟨hshape, hoperands, hcount, r, hr, hread⟩
    exact ⟨by simpa using hshape, by simpa using hoperands, _, ⟨r, hr, _, rfl, rfl⟩,
      not_not.mpr hcount, finiteBounds_eq_ok_iff.mpr hread⟩

theorem readConstraints_chain (hcut : cut cs = (first, [(operator, next), (operator', last)])) :
    readConstraints cs = .ok (target, ks) ↔ endsInOperator cs = false ∧
      (Text.trim first ≠ [] ∧ Text.trim next ≠ [] ∧ Text.trim last ≠ []) ∧
      [Text.trim first, Text.trim next, Text.trim last].countP isSelector = 1 ∧
      ∃ r s, Relation.ofSymbol? (String.ofList operator) = some r ∧
        Relation.ofSymbol? (String.ofList operator') = some s ∧
        ofChain (Text.trim first) r (Text.trim next) s (Text.trim last) = .ok (target, ks) ∧
        ∀ k ∈ ks, Scalar.isFinite k.2 = true := by
  unfold readConstraints
  simp only [hcut, Except.ite_throw_bind_eq_ok_iff, Except.bind_eq_ok_iff, List.mapM_cons,
    List.mapM_nil, List.map_cons, List.map_nil, Except.pure_eq_ok_iff, readRelation?_eq_ok_iff]
  constructor
  · rintro ⟨hshape, hoperands, _, ⟨r, hr, _, ⟨s, hs, _, rfl, rfl⟩, rfl⟩, hcount, hread⟩
    exact ⟨by simpa using hshape, by simpa using hoperands, not_not.mp hcount, r, s, hr, hs,
      finiteBounds_eq_ok_iff.mp hread⟩
  · rintro ⟨hshape, hoperands, hcount, r, s, hr, hs, hread⟩
    exact ⟨by simpa using hshape, by simpa using hoperands, _,
      ⟨r, hr, _, ⟨s, hs, _, rfl, rfl⟩, rfl⟩, not_not.mpr hcount,
      finiteBounds_eq_ok_iff.mpr hread⟩

end Reading

section Accepted

/-- What an operand of a comparison about a target stands for: it is the selector of the target, or
writes a finite number. -/
inductive IsOperand (target : List Char) : List Char → Option α → Prop where
  | selector : isSelector target = true → IsOperand target target none
  | number {operand : List Char} {y : α} : isSelector operand = false →
      Decimal.read? (String.ofList operand) = some y → Scalar.isFinite y = true →
      IsOperand target operand (some y)

theorem isOperand_none_iff {operand : List Char} :
    IsOperand (α := α) target operand none ↔ isSelector operand = true ∧ operand = target := by
  constructor
  · rintro ⟨h⟩
    exact ⟨h, rfl⟩
  · rintro ⟨h, rfl⟩
    exact .selector h

theorem isOperand_some_iff {operand : List Char} {y : α} :
    IsOperand target operand (some y) ↔ isSelector operand = false ∧
      Decimal.read? (String.ofList operand) = some y ∧ Scalar.isFinite y = true := by
  constructor
  · rintro ⟨⟩
    exact ⟨‹_›, ‹_›, ‹_›⟩
  · rintro ⟨hselector, hy, hfinite⟩
    exact .number hselector hy hfinite

/-- A text writes a comparison about a target. Blanks around operands do not count. -/
structure IsComparison (cs target : List Char) (c : Comparison α) : Prop where
  parts : ∃ first more, IsCut cs first more ∧
    (∀ operand ∈ first :: more.map (·.2), Text.trim operand ≠ []) ∧
    IsOperand target (Text.trim first) c.first ∧
    more.Forall₂ (fun part link => Relation.ofSymbol? (String.ofList part.1) = some link.1 ∧
      IsOperand target (Text.trim part.2) link.2) c.rest
  length_rest : c.rest.length = 1 ∨ c.rest.length = 2
  one_selector : c.operands.countP Option.isNone = 1
  selector_between : c.rest.length = 2 → c.operands[1]? = some none
  not_eq : c.rest.length = 2 → ∀ link ∈ c.rest, link.1 ≠ .eq

variable {c : Comparison α} {ks : List (Relation × α)}

/-- A comparison that is written constrains its variable. -/
theorem IsComparison.exists_constrains (h : IsComparison cs target c) : ∃ ks, c.Constrains ks := by
  obtain ⟨_, hlength, hone, hbetween, hne⟩ := h
  obtain ⟨first, rest⟩ := c
  rcases hlength with hlength | hlength
  · obtain ⟨⟨r, operand⟩, rfl⟩ := List.length_eq_one_iff.mp hlength
    match first, operand with
    | none, some b => exact ⟨_, .left r b⟩
    | some a, none => exact ⟨_, .right a r⟩
    | none, none => simp [Comparison.operands] at hone
    | some _, some _ => simp [Comparison.operands] at hone
  · obtain ⟨⟨r, operand⟩, ⟨s, last⟩, rfl⟩ := List.length_eq_two.mp hlength
    have hr : r ≠ .eq := hne hlength _ List.mem_cons_self
    have hs : s ≠ .eq := hne hlength (s, last) (by simp)
    obtain rfl : operand = none := Option.some.inj (hbetween hlength)
    match first, last with
    | some a, some b => exact ⟨_, .between a r s b hr hs⟩
    | none, _ => simp [Comparison.operands] at hone
    | some _, none => simp [Comparison.operands] at hone

section Shapes

variable {r s : Relation} {first operator next operator' last : List Char} {a x b : Option α}

theorem IsComparison.of_pair (hcut : IsCut cs first [(operator, next)])
    (hne : Text.trim first ≠ [] ∧ Text.trim next ≠ [])
    (hr : Relation.ofSymbol? (String.ofList operator) = some r)
    (ha : IsOperand target (Text.trim first) a) (hb : IsOperand target (Text.trim next) b)
    (hone : [a, b].countP Option.isNone = 1) : IsComparison cs target ⟨a, [(r, b)]⟩ where
  parts := ⟨first, _, hcut, by simpa using hne, ha, .cons ⟨hr, hb⟩ .nil⟩
  length_rest := .inl rfl
  one_selector := hone
  selector_between := nofun
  not_eq := nofun

theorem IsComparison.of_chain (hcut : IsCut cs first [(operator, next), (operator', last)])
    (hne : Text.trim first ≠ [] ∧ Text.trim next ≠ [] ∧ Text.trim last ≠ [])
    (hr : Relation.ofSymbol? (String.ofList operator) = some r ∧ r ≠ .eq)
    (hs : Relation.ofSymbol? (String.ofList operator') = some s ∧ s ≠ .eq)
    {a b : α} (ha : IsOperand target (Text.trim first) (some a))
    (hx : IsOperand (α := α) target (Text.trim next) none)
    (hb : IsOperand target (Text.trim last) (some b)) :
    IsComparison cs target ⟨some a, [(r, none), (s, some b)]⟩ where
  parts := ⟨first, _, hcut, by simpa using hne, ha, .cons ⟨hr.1, hx⟩ (.cons ⟨hs.1, hb⟩ .nil)⟩
  length_rest := .inr rfl
  one_selector := rfl
  selector_between _ := rfl
  not_eq _ := by simpa using ⟨hr.2, hs.2⟩

end Shapes

/-- Constraints are read from comparisons only. -/
theorem exists_isComparison (h : readConstraints cs = .ok (target, ks)) :
    ∃ c, IsComparison cs target c ∧ c.Constrains ks := by
  have hlength := length_cut_of_readConstraints h
  rcases hcut : cut cs with ⟨first, more⟩
  have hparts := cut_eq_iff.mp hcut
  rw [hcut] at hlength
  rcases hlength with hlength | hlength
  · obtain ⟨⟨operator, next⟩, rfl⟩ := List.length_eq_one_iff.mp hlength
    obtain ⟨_, hne, hcount, r, hr, hpair, hfinite⟩ := (readConstraints_pair hcut).mp h
    rcases ofPair_eq_ok_iff.mp hpair with ⟨hselector, rfl, y, hy, rfl⟩ | ⟨hnumber, rfl, y, hy, rfl⟩
    · have hnumber : isSelector (Text.trim next) = false := by simpa [hselector] using hcount
      exact ⟨_, .of_pair hparts hne hr (.selector hselector)
        (.number hnumber hy (hfinite _ List.mem_cons_self)) rfl, .left r y⟩
    · have hselector : isSelector (Text.trim next) = true := by
        simpa [List.countP_cons, hnumber] using hcount
      exact ⟨_, .of_pair hparts hne hr (.number hnumber hy (hfinite _ List.mem_cons_self))
        (.selector hselector) rfl, .right y r⟩
  · obtain ⟨⟨operator, next⟩, ⟨operator', last⟩, rfl⟩ := List.length_eq_two.mp hlength
    obtain ⟨_, hne, hcount, r, s, hr, hs, hchain, hfinite⟩ := (readConstraints_chain hcut).mp h
    obtain ⟨hselector, rfl, hreq, hseq, low, high, hlow, hhigh, rfl⟩ :=
      ofChain_eq_ok_iff.mp hchain
    have hnumbers : isSelector (Text.trim first) = false ∧ isSelector (Text.trim last) = false := by
      cases hfirst : isSelector (Text.trim first) <;> cases hlast : isSelector (Text.trim last) <;>
        simp [hselector, hfirst, hlast] at hcount ⊢
    exact ⟨_, .of_chain hparts hne ⟨hr, hreq⟩ ⟨hs, hseq⟩
      (.number hnumbers.1 hlow (hfinite (r.flip, low) (by simp))) (.selector hselector)
      (.number hnumbers.2 hhigh (hfinite (s, high) (by simp))), .between low r s high hreq hseq⟩

/-- The constraints of every comparison are read. -/
theorem IsComparison.readConstraints_eq (h : IsComparison cs target c) (hks : c.Constrains ks) :
    readConstraints cs = .ok (target, ks) := by
  obtain ⟨first, more, hparts, hoperands, hfirst, hmore⟩ := h.parts
  have hcut := cut_eq_iff.mpr hparts
  have hend : endsInOperator cs = false := by
    have hne (operand : List Char) (hmem : operand ∈ first :: more.map (·.2)) : operand ≠ [] := by
      rintro rfl
      exact hoperands [] hmem rfl
    exact hparts.endsInOperator_eq (hne first List.mem_cons_self) fun part hpart =>
      hne part.2 (List.mem_cons_of_mem _ (List.mem_map_of_mem hpart))
  cases hks with
  | left r b =>
    obtain ⟨⟨operator, next⟩, _, ⟨hr, hnext⟩, hnil, rfl⟩ := List.forall₂_cons_right_iff.mp hmore
    obtain rfl := List.forall₂_nil_right_iff.mp hnil
    simp only [List.map_cons, List.map_nil, List.forall_mem_cons] at hoperands
    obtain ⟨hselector, htarget⟩ := isOperand_none_iff.mp hfirst
    obtain ⟨hnumber, hb, hfinite⟩ := isOperand_some_iff.mp hnext
    exact (readConstraints_pair hcut).mpr ⟨hend, ⟨hoperands.1, hoperands.2.1⟩,
      by simp [hselector, hnumber], r, hr,
      ofPair_eq_ok_iff.mpr (.inl ⟨hselector, htarget, b, hb, rfl⟩), by simpa using hfinite⟩
  | right a r =>
    obtain ⟨⟨operator, next⟩, _, ⟨hr, hnext⟩, hnil, rfl⟩ := List.forall₂_cons_right_iff.mp hmore
    obtain rfl := List.forall₂_nil_right_iff.mp hnil
    simp only [List.map_cons, List.map_nil, List.forall_mem_cons] at hoperands
    obtain ⟨hnumber, ha, hfinite⟩ := isOperand_some_iff.mp hfirst
    obtain ⟨hselector, htarget⟩ := isOperand_none_iff.mp hnext
    exact (readConstraints_pair hcut).mpr ⟨hend, ⟨hoperands.1, hoperands.2.1⟩,
      by simp [hselector, hnumber], r, hr,
      ofPair_eq_ok_iff.mpr (.inr ⟨hnumber, htarget, a, ha, rfl⟩), by simpa using hfinite⟩
  | between a r s b hreq hseq =>
    obtain ⟨⟨operator, next⟩, _, ⟨hr, hnext⟩, hrest, rfl⟩ := List.forall₂_cons_right_iff.mp hmore
    obtain ⟨⟨operator', last⟩, _, ⟨hs, hlast⟩, hnil, rfl⟩ := List.forall₂_cons_right_iff.mp hrest
    obtain rfl := List.forall₂_nil_right_iff.mp hnil
    simp only [List.map_cons, List.map_nil, List.forall_mem_cons] at hoperands
    obtain ⟨hlow, ha, hfinitea⟩ := isOperand_some_iff.mp hfirst
    obtain ⟨hselector, htarget⟩ := isOperand_none_iff.mp hnext
    obtain ⟨hhigh, hb, hfiniteb⟩ := isOperand_some_iff.mp hlast
    exact (readConstraints_chain hcut).mpr ⟨hend, ⟨hoperands.1, hoperands.2.1, hoperands.2.2.1⟩,
      by simp [hselector, hlow, hhigh], r, s, hr, hs,
      ofChain_eq_ok_iff.mpr ⟨hselector, htarget, hreq, hseq, a, b, ha, hb, rfl⟩,
      by simpa using ⟨hfinitea, hfiniteb⟩⟩

variable [LawfulOrder α]

/-- Observations are read from those texts that compare one selector with finite numbers. They are about
that selector, and hold of the values of which the comparison is true. -/
theorem parse_isOk_iff_isComparison {precision : α} (hfinite : Scalar.isFinite precision = true)
    (hnonneg : 0 ≤ precision) (expression : String) :
    ((∃ o, parse expression precision = .ok o) ↔
      ∃ target c, IsComparison (α := α) expression.toList target c) ∧
    ∀ target c, IsComparison expression.toList target c → ∃ o, parse expression precision = .ok o ∧
      o.target = String.ofList target ∧ o.precision = precision ∧
      ∀ x, (∀ k ∈ o.constraints, k.1.holds x k.2 = true) ↔ c.holdsAt x = true := by
  have hread (target : List Char) (c : Comparison α)
      (h : IsComparison expression.toList target c) : ∃ o, parse expression precision = .ok o ∧
        o.target = String.ofList target ∧ o.precision = precision ∧
        ∀ x, (∀ k ∈ o.constraints, k.1.holds x k.2 = true) ↔ c.holdsAt x = true := by
    obtain ⟨ks, hks⟩ := h.exists_constrains
    have hcheck : checkPrecision precision = .ok () := by
      simp [checkPrecision, hfinite, hnonneg, pure, Except.pure]
    refine ⟨⟨String.ofList target, ks, precision⟩, ?_, rfl, rfl, hks.forall_holds_iff⟩
    unfold parse
    rw [hcheck, h.readConstraints_eq hks]
    rfl
  refine ⟨⟨?_, ?_⟩, hread⟩
  · rintro ⟨o, ho⟩
    obtain ⟨_, _, ho⟩ := Except.bind_eq_ok_iff.mp ho
    cases hks : readConstraints (α := α) expression.toList with
    | error fault =>
      rw [hks] at ho
      cases ho
    | ok read =>
      obtain ⟨c, hc, _⟩ := exists_isComparison hks
      exact ⟨read.1, c, hc⟩
  · rintro ⟨target, c, h⟩
    obtain ⟨o, ho, _⟩ := hread target c h
    exact ⟨o, ho⟩

end Accepted

section Band

private theorem isSelector_out : isSelector "out".toList = true ∧
    isSelector "10".toList = false ∧ isSelector "5".toList = false := by
  unfold isSelector Selector.ofChars? Selector.isName Selector.isNameStart Selector.isNamePart
    Text.isAlphanumeric Text.isAlphabetic Text.isNumeric
  simp only [Text.inRanges_eq]
  decide +kernel

private theorem trim_out : Text.trim "10 ".toList = "10".toList ∧
    Text.trim " out ".toList = "out".toList ∧ Text.trim " 5".toList = "5".toList := by
  unfold Text.trim Text.isBlank
  simp only [Text.inRanges_eq]
  decide +kernel

private theorem read?_bounds : Decimal.read? (String.ofList "10".toList) = some (Exact.real 10) ∧
    Decimal.read? (String.ofList "5".toList) = some (Exact.real 5) := by
  have hvalue (n : Nat) : (Scalar.ofScientific n false 0 : Exact) = .real n := by
    change Exact.real _ = _
    simp
  constructor
  · exact congrArg some (hvalue 10)
  · exact congrArg some (hvalue 5)

private theorem isComparison_out : IsComparison "10 > out > 5".toList "out".toList
    ⟨some (Exact.real 10), [(.gt, none), (.gt, some (Exact.real 5))]⟩ := by
  obtain ⟨hselector, hten, hfive⟩ := isSelector_out
  obtain ⟨htrimTen, htrimOut, htrimFive⟩ := trim_out
  have hcut : IsCut "10 > out > 5".toList "10 ".toList
      [(">".toList, " out ".toList), (">".toList, " 5".toList)] :=
    cut_eq_iff.mp (by decide +kernel)
  refine .of_chain hcut ?_ ⟨rfl, by decide⟩ ⟨rfl, by decide⟩ ?_ ?_ ?_
  · rw [htrimTen, htrimOut, htrimFive]
    decide
  · rw [htrimTen]
    exact .number hten read?_bounds.1 (Exact.isFinite_iff.mpr ⟨_, rfl⟩)
  · rw [htrimOut]
    exact .selector hselector
  · rw [htrimFive]
    exact .number hfive read?_bounds.2 (Exact.isFinite_iff.mpr ⟨_, rfl⟩)

/-- A band between two numbers. -/
theorem parse_tenGtOutGtFive : ∃ o, parse "10 > out > 5" (0 : Exact) = .ok o ∧
    o.target = "out" ∧ ∀ x, (∀ k ∈ o.constraints, k.1.holds x k.2 = true) ↔
      Exact.real 5 < x ∧ x < Exact.real 10 := by
  obtain ⟨o, ho, htarget, _, hholds⟩ := (parse_isOk_iff_isComparison
    (Exact.isFinite_iff.mpr ⟨_, rfl⟩) Exact.zero_le_zero "10 > out > 5").2 _ _ isComparison_out
  refine ⟨o, ho, htarget, fun x => (hholds x).trans ?_⟩
  simp [Comparison.holdsAt, Comparison.holdsAlong, Relation.holds, and_comm]

end Band

end Observation

end InfoFlow
