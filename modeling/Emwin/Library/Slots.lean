import Mathlib.Data.List.Count

/-! A 64-bit counter of the slots that the members of a list hold, below a limit. -/

namespace Library

section
variable {α : Type} {holds : α → Bool} {list : List α} {index : Nat} {before after : α}

/-- A member that changes without taking or releasing a slot. -/
theorem countP_set_same (found : list[index]? = some before) (same : holds after = holds before)
    : (list.set index after).countP holds = list.countP holds := by
  obtain ⟨inside, rfl⟩ := List.getElem?_eq_some_iff.mp found
  rw [List.countP_set inside, same]
  by_cases held : holds list[index] = true
  · have positive : 0 < list.countP holds :=
      List.countP_pos_iff.mpr ⟨_, List.getElem_mem inside, held⟩
    simp only [held, if_true]
    exact Nat.sub_add_cancel positive
  · simp [held]

/-- A member that releases its slot. -/
theorem countP_set_released (found : list[index]? = some before) (held : holds before = true)
    (released : holds after = false)
    : (list.set index after).countP holds + 1 = list.countP holds := by
  obtain ⟨inside, rfl⟩ := List.getElem?_eq_some_iff.mp found
  have positive : 0 < list.countP holds :=
    List.countP_pos_iff.mpr ⟨_, List.getElem_mem inside, held⟩
  rw [List.countP_set inside, held, released]
  exact Nat.sub_add_cancel positive

end

section
variable {counter limit : UInt64} {slots : Nat}

/-- Taking a slot while the counter is below its limit does not wrap. -/
theorem counted_succ (counted : counter.toNat = slots) (free : counter < limit)
    : (counter + 1).toNat = slots + 1 ∧ slots + 1 ≤ limit.toNat := by
  have below := UInt64.lt_iff_toNat_lt.mp free
  have size := limit.toNat_lt
  refine ⟨?_, by omega⟩
  rw [UInt64.toNat_add, counted]
  exact Nat.mod_eq_of_lt (by simp only [UInt64.reduceToNat]; omega)

/-- Releasing a slot that is counted does not wrap. -/
theorem counted_pred (counted : counter.toNat = slots + 1) : (counter - 1).toNat = slots := by
  have positive : (1 : UInt64) ≤ counter := by
    rw [UInt64.le_iff_toNat_le, counted]
    exact Nat.le_add_left 1 slots
  rw [UInt64.toNat_sub_of_le _ _ positive, counted]
  rfl

end

end Library
