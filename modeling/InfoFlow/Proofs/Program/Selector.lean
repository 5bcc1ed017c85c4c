import InfoFlow.Program.Selector
import Mathlib.Data.Nat.Digits.Defs

namespace InfoFlow

theorem Decimal.readDigits?_toDigits (n : Nat) : readDigits? (Nat.toDigits 10 n) = some n := by
  have hdigits : (Nat.toDigits 10 n).all Char.isDigit = true :=
    List.all_eq_true.mpr fun c hc => Nat.isDigit_of_mem_toDigits (by decide) (by decide) hc
  have hvalue : valueOfDigits (Nat.toDigits 10 n) = n := Nat.ofDigitChars_ten_toDigits
  simp [readDigits?, hdigits, hvalue, Nat.toDigits_ne_nil]

namespace Text

/-- A table is searched as a list; the kernel is slow to search a long array. -/
theorem inRanges_eq (ranges : Array (Nat × Nat)) (c : Char) :
    inRanges ranges c =
      ranges.toList.any fun (first, last) => first ≤ c.toNat && c.toNat ≤ last := by
  unfold inRanges
  rw [Array.any_toList]

/-- Digits are not blank. -/
theorem not_isBlank_of_isDigit {c : Char} (h : c.isDigit = true) : isBlank c = false := by
  have hrange : 48 ≤ c.toNat ∧ c.toNat ≤ 57 := by
    simpa [Char.isDigit, UInt32.le_iff_toNat_le] using h
  unfold isBlank
  rw [inRanges_eq]
  simp only [blankRanges, List.any_cons, List.any_nil, Bool.or_eq_false_iff,
    Bool.and_eq_false_iff, decide_eq_false_iff_not]
  grind

/-- Nothing is cut off where there are no blanks. -/
theorem trim_eq_self {cs : List Char} (h : ∀ c ∈ cs, isBlank c = false) : trim cs = cs := by
  have hkept {ds : List Char} (hds : ∀ c ∈ ds, isBlank c = false) : ds.dropWhile isBlank = ds := by
    cases ds with
    | nil => rfl
    | cons d ds => rw [List.dropWhile_cons_of_neg (by simp [hds d List.mem_cons_self])]
  unfold trim
  rw [hkept h, hkept (by simpa using h), List.reverse_reverse]

private theorem not_isAlphabetic_bracket : isAlphabetic '[' = false := by
  unfold isAlphabetic
  rw [inRanges_eq]
  decide +kernel

private theorem not_isNumeric_bracket : isNumeric '[' = false := by
  unfold isNumeric
  rw [inRanges_eq]
  decide +kernel

end Text

namespace Selector

theorem readIndex?_toDigits {n : Nat} (hn : n < UInt64.size) :
    readIndex? (Nat.toDigits 10 n) = some n := by
  unfold readIndex?
  split
  · rename_i rest hrest
    have hsign : '+' ∈ Nat.toDigits 10 n := hrest ▸ List.mem_cons_self
    cases Nat.isDigit_of_mem_toDigits (by decide) (by decide) hsign
  · rw [Decimal.readDigits?_toDigits]
    simp [hn]

/-- Names have no brackets. -/
theorem ne_bracket_of_isName {cs : List Char} (h : isName cs = true) :
    ∀ c ∈ cs, (c != '[') = true := by
  intro c hc
  rw [bne_iff_ne]
  rintro rfl
  cases cs with
  | nil => cases hc
  | cons d ds =>
    unfold isName at h
    rw [Bool.and_eq_true, List.all_eq_true] at h
    rcases List.mem_cons.mp hc with rfl | hc
    · simp [isNameStart, Text.not_isAlphabetic_bracket] at h
    · have hpart := h.2 _ hc
      simp [isNamePart, Text.isAlphanumeric, Text.not_isAlphabetic_bracket,
        Text.not_isNumeric_bracket] at hpart

variable {name : String}

theorem parse?_name (h : isName name.toList = true) : parse? name = some ⟨name, none⟩ := by
  have hchars := ne_bracket_of_isName h
  have htake : (name.toList ++ []).takeWhile (· != '[') = _ := List.takeWhile_append_of_pos hchars
  have hdrop : (name.toList ++ []).dropWhile (· != '[') = _ := List.dropWhile_append_of_pos hchars
  rw [List.append_nil] at htake hdrop
  simp [parse?, ofChars?, htake, hdrop, h]

/-- A text that is no name selects nothing, or one element of something else. -/
theorem parse?_of_not_isName (h : isName name.toList = false) :
    parse? name = none ∨ ∃ other e, parse? name = some ⟨other, some e⟩ ∧ other ≠ name := by
  have hsplit := List.takeWhile_append_dropWhile (p := (· != '[')) (l := name.toList)
  unfold parse? ofChars?
  cases hrest : name.toList.dropWhile (· != '[') with
  | nil =>
    rw [hrest, List.append_nil] at hsplit
    simp [hsplit, h]
  | cons bracket rest =>
    have hother : String.ofList (name.toList.takeWhile (· != '[')) ≠ name := by
      intro hsame
      rw [← String.toList_inj, String.toList_ofList] at hsame
      rw [hsame, hrest] at hsplit
      simp at hsplit
    cases hcut : withoutBracket? rest with
    | none => exact .inl (by simp [hcut])
    | some cs =>
      cases hindex : readIndex? (Text.trim cs) with
      | none => exact .inl (by simp [hcut, hindex])
      | some e =>
        by_cases hname : isName (name.toList.takeWhile (· != '[')) = true
        · exact .inr ⟨_, e, by simp [hcut, hindex, hname], hother⟩
        · exact .inl (by simp [hcut, hname])

/-- The text of an element is read as the element. -/
theorem parse?_element (h : isName name.toList = true) {e : Nat} (he : e < UInt64.size) :
    parse? (name ++ "[" ++ toString e ++ "]") = some ⟨name, some e⟩ := by
  have hchars := ne_bracket_of_isName h
  have htext : (name ++ "[" ++ toString e ++ "]").toList =
      name.toList ++ '[' :: (Nat.toDigits 10 e ++ [']']) := by
    simp [Nat.toString_eq_repr]
  have hblank : ∀ c ∈ Nat.toDigits 10 e, Text.isBlank c = false := fun c hc =>
    Text.not_isBlank_of_isDigit (Nat.isDigit_of_mem_toDigits (by decide) (by decide) hc)
  have hclosed : withoutBracket? (Nat.toDigits 10 e ++ [']']) = some (Nat.toDigits 10 e) := by
    simp [withoutBracket?]
  have hindex : readIndex? (Text.trim (Nat.toDigits 10 e)) = some e := by
    rw [Text.trim_eq_self hblank, readIndex?_toDigits he]
  unfold parse? ofChars?
  rw [htext, List.takeWhile_append_of_pos hchars, List.dropWhile_append_of_pos hchars]
  have hname : List.takeWhile (· != '[') ('[' :: (Nat.toDigits 10 e ++ [']'])) = [] := by simp
  have hrest : List.dropWhile (· != '[') ('[' :: (Nat.toDigits 10 e ++ [']'])) =
      '[' :: (Nat.toDigits 10 e ++ [']']) := by simp
  simp only [hname, hrest, hclosed, hindex, h, List.append_nil, if_true, bind, Option.bind_some,
    Option.map_some, String.ofList_toList]

end Selector

end InfoFlow
