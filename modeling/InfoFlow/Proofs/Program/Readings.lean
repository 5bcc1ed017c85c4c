import InfoFlow.Proofs.Program.Selector
import Mathlib.Data.List.TakeWhile

namespace InfoFlow

namespace Text

variable {before body after : List Char}

theorem dropWhile_isBlank_append (hbefore : ∀ c ∈ before, isBlank c = true) (hne : body ≠ [])
    (hbody : ∀ c ∈ body, isBlank c = false) (rest : List Char) :
    (before ++ (body ++ rest)).dropWhile isBlank = body ++ rest := by
  obtain ⟨c, cs, rfl⟩ := List.exists_cons_of_ne_nil hne
  rw [List.dropWhile_append_of_pos hbefore, List.cons_append,
    List.dropWhile_cons_of_neg (by simp [hbody c List.mem_cons_self])]

/-- Blanks at both ends are cut off. -/
theorem trim_append (hbefore : ∀ c ∈ before, isBlank c = true) (hafter : ∀ c ∈ after, isBlank c = true)
    (hne : body ≠ []) (hbody : ∀ c ∈ body, isBlank c = false) : trim (before ++ body ++ after) = body := by
  have hback := @dropWhile_isBlank_append after.reverse body.reverse (by simpa using hafter)
    (by simpa using hne) (by simpa using hbody) []
  rw [List.append_nil] at hback
  unfold trim
  rw [List.append_assoc, dropWhile_isBlank_append hbefore hne hbody, List.reverse_append, hback,
    List.reverse_reverse]

/-- Nothing but blanks is cut off. -/
theorem exists_blanks_trim (cs : List Char) : ∃ before after,
    cs = before ++ trim cs ++ after ∧ (∀ c ∈ before, isBlank c = true) ∧ ∀ c ∈ after, isBlank c = true := by
  have hstart := List.takeWhile_append_dropWhile (p := isBlank) (l := cs)
  have hend := List.takeWhile_append_dropWhile (p := isBlank) (l := (cs.dropWhile isBlank).reverse)
  refine ⟨cs.takeWhile isBlank, ((cs.dropWhile isBlank).reverse.takeWhile isBlank).reverse, ?_,
    fun c hc => List.mem_takeWhile_imp hc, fun c hc => List.mem_takeWhile_imp (List.mem_reverse.mp hc)⟩
  unfold trim
  rw [List.append_assoc, ← List.reverse_append, hend, List.reverse_reverse, hstart]

theorem not_isBlank_plus : isBlank '+' = false := by
  unfold isBlank
  rw [inRanges_eq]
  decide

end Text

theorem Decimal.readDigits?_eq_some_iff {cs : List Char} {n : ℕ} : readDigits? cs = some n ↔
    cs ≠ [] ∧ (∀ c ∈ cs, c.isDigit = true) ∧ Nat.ofDigitChars 10 cs 0 = n := by
  unfold readDigits?
  rw [Option.ite_none_right_eq_some]
  simp only [Bool.and_eq_true, Bool.not_eq_true', List.isEmpty_eq_false_iff, List.all_eq_true, and_assoc,
    Option.some.injEq]
  exact Iff.rfl

namespace Selector

/-- A letter or an underscore, and then letters, digits, underscores and points. -/
inductive IsName : List Char → Prop where
  | letters {c : Char} {rest : List Char} (hstart : Text.isAlphabetic c = true ∨ c = '_')
      (hparts : ∀ d ∈ rest, Text.isAlphabetic d = true ∨ Text.isNumeric d = true ∨ d = '_' ∨ d = '.') :
      IsName (c :: rest)

/-- A number that fits in a word, in decimal digits. There may be a plus sign, and blanks at both ends. -/
inductive IsIndex : List Char → ℕ → Prop where
  | numeral {before sign digits after : List Char} (hbefore : ∀ c ∈ before, Text.isBlank c = true)
      (hafter : ∀ c ∈ after, Text.isBlank c = true) (hsign : sign = [] ∨ sign = ['+']) (hne : digits ≠ [])
      (hdigits : ∀ c ∈ digits, c.isDigit = true) (hlt : Nat.ofDigitChars 10 digits 0 < 2 ^ 64) :
      IsIndex (before ++ (sign ++ digits) ++ after) (Nat.ofDigitChars 10 digits 0)

/-- What a text stands for: a name for a variable, a name and an index in brackets for an element. -/
inductive Denotes : List Char → List Char → Option ℕ → Prop where
  | variable {name : List Char} (hname : IsName name) : Denotes name name none
  | element {name index : List Char} {n : ℕ} (hname : IsName name) (hindex : IsIndex index n) :
    Denotes (name ++ '[' :: (index ++ [']'])) name (some n)

variable {cs name index : List Char} {n : ℕ}

theorem isName_iff : isName cs = true ↔ IsName cs := by
  cases cs with
  | nil => constructor <;> intro h <;> cases h
  | cons c rest =>
    simp only [isName, isNameStart, isNamePart, Text.isAlphanumeric, Bool.and_eq_true, Bool.or_eq_true,
      List.all_eq_true, beq_iff_eq, or_assoc]
    constructor
    · rintro ⟨hstart, hparts⟩
      exact .letters hstart hparts
    · rintro ⟨hstart, hparts⟩
      exact ⟨hstart, hparts⟩

/-- A text of digits has no sign. -/
theorem readIndex?_eq_some_iff : readIndex? cs = some n ↔ ∃ sign digits, cs = sign ++ digits ∧
    (sign = [] ∨ sign = ['+']) ∧ Decimal.readDigits? digits = some n ∧ n < 2 ^ 64 := by
  have hread {digits : List Char} : ((Decimal.readDigits? digits).bind fun n =>
      if n < UInt64.size then some n else none) = some n ↔ Decimal.readDigits? digits = some n ∧ n < 2 ^ 64 := by
    rw [Option.bind_eq_some_iff]
    constructor
    · rintro ⟨m, hm, hsize⟩
      obtain ⟨hlt, hmn⟩ := Option.ite_none_right_eq_some.mp hsize
      cases hmn
      exact ⟨hm, hlt⟩
    · rintro ⟨hn, hlt⟩
      exact ⟨n, hn, if_pos hlt⟩
  unfold readIndex?
  split
  · rename_i rest
    refine hread.trans ⟨fun h => ⟨['+'], rest, rfl, .inr rfl, h⟩, ?_⟩
    rintro ⟨sign, digits, hsplit, rfl | rfl, hdigits, hlt⟩
    · -- a plus sign is no digit
      obtain rfl : '+' :: rest = digits := hsplit
      cases (Decimal.readDigits?_eq_some_iff.mp hdigits).2.1 '+' List.mem_cons_self
    · cases hsplit
      exact ⟨hdigits, hlt⟩
  · rename_i hunsigned
    refine hread.trans ⟨fun h => ⟨[], cs, rfl, .inl rfl, h⟩, ?_⟩
    rintro ⟨sign, digits, rfl, rfl | rfl, hdigits, hlt⟩
    · exact ⟨hdigits, hlt⟩
    · exact absurd rfl (hunsigned digits)

/-- Blanks around an index are left out, and neither digits nor the sign are blanks. -/
theorem readIndex?_trim_iff : readIndex? (Text.trim cs) = some n ↔ IsIndex cs n := by
  rw [readIndex?_eq_some_iff]
  constructor
  · rintro ⟨sign, digits, htrim, hsign, hdigits, hlt⟩
    obtain ⟨before, after, hcs, hbefore, hafter⟩ := Text.exists_blanks_trim cs
    obtain ⟨hne, hall, rfl⟩ := Decimal.readDigits?_eq_some_iff.mp hdigits
    rw [hcs, htrim]
    exact .numeral hbefore hafter hsign hne hall hlt
  · rintro ⟨hbefore, hafter, hsign, hne, hdigits, hlt⟩
    rename_i before sign digits after
    have hsolid : ∀ c ∈ sign ++ digits, Text.isBlank c = false := by
      intro c hc
      rcases List.mem_append.mp hc with hc | hc
      · rcases hsign with rfl | rfl
        · cases hc
        · rw [List.mem_singleton.mp hc]
          exact Text.not_isBlank_plus
      · exact Text.not_isBlank_of_isDigit (hdigits c hc)
    have htrim := Text.trim_append hbefore hafter (List.append_ne_nil_of_right_ne_nil sign hne) hsolid
    exact ⟨sign, digits, htrim, hsign, Decimal.readDigits?_eq_some_iff.mpr ⟨hne, hdigits, rfl⟩, hlt⟩

theorem withoutBracket?_eq_some_iff : withoutBracket? cs = some index ↔ cs = index ++ [']'] := by
  unfold withoutBracket?
  rw [Option.ite_none_right_eq_some, List.getLast?_eq_some_iff]
  constructor
  · rintro ⟨⟨rest, rfl⟩, hrest⟩
    rw [List.dropLast_concat] at hrest
    cases hrest
    rfl
  · rintro rfl
    exact ⟨⟨index, rfl⟩, congrArg some List.dropLast_concat⟩

/-- A name ends where a bracket opens, as it has none itself. -/
theorem ofChars?_eq_some_iff {selected : Option ℕ} :
    ofChars? cs = some (name, selected) ↔ Denotes cs name selected := by
  have hsplit := List.takeWhile_append_dropWhile (p := (· != '[')) (l := cs)
  constructor
  · intro h
    unfold ofChars? at h
    split at h
    · rename_i hrest
      obtain ⟨hname, hpair⟩ := Option.ite_none_right_eq_some.mp h
      cases hpair
      rw [hrest, List.append_nil] at hsplit
      rw [hsplit] at hname ⊢
      exact .variable (isName_iff.mp hname)
    · rename_i bracket rest hrest
      have hbracket : bracket = '[' := by
        have hstop := List.head?_dropWhile_not (· != '[') cs
        simpa [hrest] using hstop
      obtain ⟨inner, hinner, h⟩ := Option.bind_eq_some_iff.mp h
      obtain ⟨n, hindex, h⟩ := Option.bind_eq_some_iff.mp h
      obtain ⟨hname, hpair⟩ := Option.ite_none_right_eq_some.mp h
      cases hpair
      rw [hrest, hbracket, withoutBracket?_eq_some_iff.mp hinner] at hsplit
      have hdenotes := Denotes.element (isName_iff.mp hname) (readIndex?_trim_iff.mp hindex)
      rwa [hsplit] at hdenotes
  · rintro (⟨hname⟩ | ⟨hname, hindex⟩)
    · have hname := isName_iff.mpr hname
      have hchars := ne_bracket_of_isName hname
      have htake := List.takeWhile_eq_self_iff.mpr hchars
      have hdrop := List.dropWhile_eq_nil_iff.mpr hchars
      simp [ofChars?, htake, hdrop, hname]
    · rename_i inner n
      have hname := isName_iff.mpr hname
      have hchars := ne_bracket_of_isName hname
      have hinner : withoutBracket? (inner ++ [']']) = some inner := withoutBracket?_eq_some_iff.mpr rfl
      have hread := readIndex?_trim_iff.mpr hindex
      unfold ofChars?
      rw [List.takeWhile_append_of_pos hchars, List.dropWhile_append_of_pos hchars]
      simp [hinner, hread, hname]

/-- Names and elements are read as what they are, and exactly those texts are read that stand for one of
them. -/
theorem parse?_eq_some_iff_denotes :
    (∀ name : String, IsName name.toList → parse? name = some ⟨name, none⟩ ∧
      ∀ i < 2 ^ 64, parse? (name ++ "[" ++ toString i ++ "]") = some ⟨name, some i⟩) ∧
    ∀ s selector, parse? s = some selector ↔
      Denotes s.toList selector.name.toList selector.index := by
  refine ⟨fun name hname => ?_, fun s selector => ?_⟩
  · have hname := isName_iff.mpr hname
    exact ⟨parse?_name hname, fun i hi => parse?_element hname hi⟩
  · rw [← ofChars?_eq_some_iff]
    unfold parse?
    rw [Option.map_eq_some_iff]
    constructor
    · rintro ⟨⟨name, index⟩, hread, rfl⟩
      rwa [String.toList_ofList]
    · intro hread
      refine ⟨_, hread, ?_⟩
      dsimp only
      rw [String.ofList_toList]

theorem isName_ages : IsName "ages".toList := by
  refine isName_iff.mp ?_
  unfold isName isNameStart isNamePart Text.isAlphanumeric Text.isAlphabetic Text.isNumeric
  simp only [Text.inRanges_eq]
  decide +kernel

/-- A sign, a leading zero and a blank make no difference. -/
theorem parse?_thirdAge : IsName "ages".toList ∧ (3 < 2 ^ 64) ∧ parse? "ages" = some ⟨"ages", none⟩ ∧
    parse? ("ages" ++ "[" ++ toString 3 ++ "]") = some ⟨"ages", some 3⟩ ∧
    parse? "ages[ +03]" = some ⟨"ages", some 3⟩ := by
  have hblank : Text.isBlank ' ' = true := by
    unfold Text.isBlank
    rw [Text.inRanges_eq]
    decide
  have hdigits : ∀ c ∈ ['0', '3'], c.isDigit = true :=
    List.forall_mem_cons.mpr ⟨rfl, List.forall_mem_singleton.mpr rfl⟩
  have hindex : IsIndex ([' '] ++ (['+'] ++ ['0', '3']) ++ []) 3 :=
    .numeral (List.forall_mem_singleton.mpr hblank) (List.forall_mem_nil _) (.inr rfl) nofun hdigits (by decide)
  obtain ⟨hwhole, helement⟩ := parse?_eq_some_iff_denotes.1 "ages" isName_ages
  exact ⟨isName_ages, by decide, hwhole, helement 3 (by decide),
    (parse?_eq_some_iff_denotes.2 "ages[ +03]" ⟨"ages", some 3⟩).mpr (.element isName_ages hindex)⟩

end Selector

end InfoFlow
