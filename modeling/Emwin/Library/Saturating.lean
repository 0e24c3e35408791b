import Mathlib.Data.UInt
import Mathlib.Algebra.BigOperators.Group.List.Basic

/-! Saturating 64-bit addition. -/

namespace Library

/-- `u64::saturating_add`. -/
def saturatingAdd (left right : UInt64) : UInt64 :=
  if left.toNat + right.toNat < UInt64.size then left + right else UInt64.ofNat (UInt64.size - 1)

/-- The sum, cut to the largest 64-bit number. -/
theorem saturatingAdd_toNat (left right : UInt64)
    : (saturatingAdd left right).toNat = min (left.toNat + right.toNat) (UInt64.size - 1) := by
  unfold saturatingAdd
  split_ifs with fits
  · rw [UInt64.toNat_add, Nat.mod_eq_of_lt fits]
    omega
  · rw [UInt64.toNat_ofNat', Nat.mod_eq_of_lt (by decide)]
    omega

/-- A number as far as 64 bits can hold it. -/
def saturated (n : Nat) : UInt64 := UInt64.ofNat (min n (UInt64.size - 1))

theorem saturated_toNat (n : Nat) : (saturated n).toNat = min n (UInt64.size - 1) := by
  rw [saturated, UInt64.toNat_ofNat', Nat.mod_eq_of_lt]
  have size : UInt64.size = 2 ^ 64 := rfl
  omega

theorem saturatingAdd_saturated (n : Nat) (right : UInt64)
    : saturatingAdd (saturated n) right = saturated (n + right.toNat) := by
  apply UInt64.toNat.inj
  rw [saturatingAdd_toNat, saturated_toNat, saturated_toNat]
  omega

/-- Adding up with saturation is saturating the sum, by induction on the list. -/
theorem foldl_saturatingAdd {α : Type} (amount : α → UInt64) (list : List α) (n : Nat)
    : list.foldl (fun sum item => saturatingAdd sum (amount item)) (saturated n)
      = saturated (n + (list.map fun item => (amount item).toNat).sum) := by
  induction list generalizing n with
  | nil => simp
  | cons item rest ih =>
      rw [List.foldl_cons, saturatingAdd_saturated, ih, List.map_cons, List.sum_cons,
        Nat.add_assoc]

/-- Saturating the parts of a sum does not show in the saturated sum, by induction on the
list.
-/
theorem saturated_sum {α : Type} (amount : α → Nat) (list : List α)
    : saturated (list.map fun item => (saturated (amount item)).toNat).sum
      = saturated (list.map amount).sum := by
  induction list with
  | nil => rfl
  | cons item rest ih =>
      rw [← UInt64.toNat_inj, saturated_toNat, saturated_toNat] at *
      simp only [List.map_cons, List.sum_cons, saturated_toNat] at *
      omega

theorem saturated_mono {m n : Nat} (le : m ≤ n) : saturated m ≤ saturated n := by
  rw [UInt64.le_iff_toNat_le, saturated_toNat, saturated_toNat]
  omega

theorem saturated_eq_zero_iff (n : Nat) : saturated n = 0 ↔ n = 0 := by
  rw [← UInt64.toNat_inj, saturated_toNat, UInt64.toNat_zero]
  have size : UInt64.size = 2 ^ 64 := rfl
  omega

end Library
