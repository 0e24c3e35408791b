import Mathlib.Data.List.Basic
import Mathlib.Order.Lattice

/-! A filter with a floor that rises: of the items that a test accepts, one passes if its key
is above the key of the last that passed.
-/

namespace Library

variable {α κ : Type} [LinearOrder κ] (key : α → κ) (accepts : α → Bool)

/-- The items that pass, where each one that passes is the next floor. -/
def passing : κ → List α → List α
  | _, [] => []
  | floor, item :: rest =>
      if decide (floor < key item) && accepts item then item :: passing (key item) rest
      else passing floor rest

/-- The floor after some items. -/
def floorAfter : κ → List α → κ
  | floor, [] => floor
  | floor, item :: rest =>
      if decide (floor < key item) && accepts item then floorAfter (key item) rest
      else floorAfter floor rest

variable {key accepts}

/-- One item more, by induction on the items before it. -/
theorem passing_concat (floor : κ) (items : List α) (item : α)
    : passing key accepts floor (items ++ [item])
      = passing key accepts floor items
        ++ if decide (floorAfter key accepts floor items < key item) && accepts item then [item]
          else [] := by
  induction items generalizing floor with
  | nil => rfl
  | cons first rest ih =>
      rw [List.cons_append, passing, passing, floorAfter]
      cases passes : decide (floor < key first) && accepts first with
      | true => exact congrArg (first :: ·) (ih (key first))
      | false => exact ih floor

theorem floorAfter_concat (floor : κ) (items : List α) (item : α)
    : floorAfter key accepts floor (items ++ [item])
      = if decide (floorAfter key accepts floor items < key item) && accepts item then key item
        else floorAfter key accepts floor items := by
  induction items generalizing floor with
  | nil => rfl
  | cons first rest ih =>
      rw [List.cons_append, floorAfter, floorAfter]
      cases passes : decide (floor < key first) && accepts first with
      | true => exact ih (key first)
      | false => exact ih floor

/-- What passes has increasing keys above the floor, by induction on the items. -/
theorem passing_increasing (floor : κ) (items : List α)
    : (floor :: (passing key accepts floor items).map key).Pairwise (· < ·) := by
  induction items generalizing floor with
  | nil => simp [passing]
  | cons item rest ih =>
      unfold passing
      split_ifs with passes
      · have higher : floor < key item := by
          rw [Bool.and_eq_true, decide_eq_true_eq] at passes
          exact passes.1
        have later := ih (key item)
        refine List.pairwise_cons.mpr ⟨?_, later⟩
        intro above member
        rcases List.mem_cons.mp member with rfl | after
        · exact higher
        · exact higher.trans ((List.pairwise_cons.mp later).1 above after)
      · exact ih floor

/-- Everything that the test accepts passes exactly if its keys increase from the floor on, by
induction on the items.
-/
theorem passing_eq_filter_iff (floor : κ) (items : List α)
    : passing key accepts floor items = items.filter accepts
      ↔ (floor :: (items.filter accepts).map key).Pairwise (· < ·) := by
  constructor
  · intro same
    rw [← same]
    exact passing_increasing floor items
  · intro increasing
    induction items generalizing floor with
    | nil => rfl
    | cons item rest ih =>
        cases accepted : accepts item with
        | false =>
            simp only [List.filter_cons, accepted, Bool.false_eq_true, if_false] at increasing ⊢
            rw [passing, if_neg (by simp [accepted])]
            exact ih floor increasing
        | true =>
            simp only [List.filter_cons, accepted, if_true, List.map_cons] at increasing ⊢
            obtain ⟨above, later⟩ := List.pairwise_cons.mp increasing
            have higher : floor < key item := above (key item) (by simp)
            rw [passing, if_pos (by simp [higher, accepted]), ih (key item) later]

end Library
