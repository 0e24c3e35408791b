import Mathlib.Data.List.Rotate

/-! A ring of slots with a current one, read from the oldest slot to the current one. -/

namespace Library

variable {α : Type}

/-- The slots in the order in which they were current. -/
def ringContents (slots : List α) (index : Nat) : List α := slots.rotate (index + 1)

theorem ringContents_perm (slots : List α) (index : Nat)
    : (ringContents slots index).Perm slots :=
  List.rotate_perm slots (index + 1)

/-- Behind the current slot come the oldest ones. -/
theorem ringContents_split (left right : List α) (current : α)
    : ringContents (left ++ current :: right) left.length = right ++ left ++ [current] := by
  have parts : left ++ current :: right = (left ++ [current]) ++ right := by simp
  have length : left.length + 1 = (left ++ [current]).length := by simp
  rw [ringContents, parts, length, List.rotate_append_length_eq, List.append_assoc]

/-- A change of the current slot changes the last element. -/
theorem ringContents_modify {slots : List α} {index : Nat} (inside : index < slots.length)
    (change : α → α)
    : ∃ older current,
        ringContents slots index = older ++ [current]
        ∧ ringContents (slots.modify index change) index = older ++ [change current] := by
  obtain ⟨left, current, right, split, rfl, changed⟩ := List.exists_of_modify change inside
  refine ⟨right ++ left, current, ?_, ?_⟩
  · rw [split]
    exact ringContents_split left right current
  · rw [changed]
    exact ringContents_split left right (change current)

/-- A step forward gives up the oldest slot, by cases on whether it wraps around. -/
theorem ringContents_advance {slots : List α} {index : Nat} (inside : index < slots.length)
    (fresh : α)
    : ringContents (slots.set ((index + 1) % slots.length) fresh) ((index + 1) % slots.length)
      = (ringContents slots index).tail ++ [fresh] := by
  obtain ⟨left, current, right, rfl, rfl, -⟩ := List.exists_of_modify id inside
  rw [ringContents_split]
  cases right with
  | nil =>
      have wraps : (left.length + 1) % (left ++ [current]).length = 0 := by simp
      rw [wraps]
      cases left with
      | nil => simp [ringContents]
      | cons oldest rest =>
          have split := ringContents_split [] (rest ++ [current]) fresh
          simpa using split
  | cons oldest rest =>
      have forward : (left.length + 1) % (left ++ current :: oldest :: rest).length
          = (left ++ [current]).length := by
        rw [Nat.mod_eq_of_lt (by simp)]
        simp
      have parts : left ++ current :: oldest :: rest = (left ++ [current]) ++ oldest :: rest := by
        simp
      rw [forward, parts, List.set_append_right _ _ le_rfl, Nat.sub_self, List.set_cons_zero,
        ringContents_split]
      simp

end Library
