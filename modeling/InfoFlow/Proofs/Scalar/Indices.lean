import InfoFlow.Proofs.Scalar.DoubleWords
import InfoFlow.Proofs.Scalar.Order

namespace InfoFlow

/-- Arithmetic in which the numbers from 0 to the last of up to `2 ^ 53` positions are truncated to
positions. -/
class LawfulIndices (α : Type) [Scalar α] : Prop where
  toNat_toUInt64_lt {x : α} {n : Nat} : 0 < n → n ≤ 2 ^ 53 → 0 ≤ x → x ≤ Scalar.ofNat (n - 1) →
    (Scalar.toUInt64 x).toNat < n

instance : LawfulIndices Exact where
  toNat_toUInt64_lt {x n} hpos hlimit hnonneg hle := by
    rw [Exact.zero_eq] at hnonneg
    rw [Exact.ofNat_eq] at hle
    cases x with
    | real r =>
      rw [Exact.real_le] at hnonneg hle
      have htruncate := Exact.truncate_mono hle
      rw [← Int.cast_natCast, Exact.truncate_intCast] at htruncate
      have hword := Exact.toNat_toUInt64 (.real r)
      simp only [Exact.toWord] at hword
      omega
    | nan | negInfinity => rcases hnonneg with h | ⟨h, _⟩ <;> cases h
    | infinity => rcases hle with h | ⟨h, _⟩ <;> cases h

open Float.Model Float.Model.UnpackedFloat

namespace Double

variable {x y : Float}

/-- Between 0 and a finite number there are finite numbers only. -/
theorem isFinite_of_le (hnonneg : 0 ≤ x) (hle : x ≤ y) (hy : (unpacked y).isFinite = true) :
    (unpacked x).isFinite = true := by
  have hsigns : compare Sign.positive Sign.negative = .gt := rfl
  rw [le_iff, unpacked_zero] at hnonneg
  rw [le_iff] at hle
  rcases hx : unpacked x with (_ | _) | _ | _ | _ <;>
    rcases hu : unpacked y with _ | _ | _ | ⟨_ | _, m, e, hm⟩ <;>
      simp_all [UnpackedFloat.compare, UnpackedFloat.isFinite]

end Double

open Double in
instance : LawfulIndices Float where
  toNat_toUInt64_lt {x n} hpos hlimit hnonneg hle := by
    obtain ⟨hlast, hvalue⟩ := value_ofNat (isExact_of_lt (n := n - 1) (by omega))
    have hfinite := isFinite_of_le hnonneg hle hlast
    have hbelow : value (unpacked x) ≤ (n - 1 : ℕ) := by
      rw [← hvalue, ← not_lt, ← lt_iff_value hlast hfinite]
      exact fun hlt => Scalar.not_le_of_lt hlt hle
    have hfloor : ⌊value (unpacked x)⌋₊ ≤ n - 1 := Nat.floor_le_of_le hbelow
    change x.toUInt64.toNat < n
    rw [toNat_toUInt64 hfinite]
    omega

end InfoFlow
