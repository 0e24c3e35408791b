import Mathlib.Data.List.Basic

/-! Periods that are opened and closed in a sequence of items, and items that belong inside
them.
-/

namespace Library

/-- What an item means for the period that it stands in. -/
inductive Mark where
  | opening
  | closing
  | inner
  | neutral
  deriving DecidableEq

namespace Mark

/-- Read a mark inside or outside a period; a mark that is out of place is not read. -/
def read : Bool → Mark → Option Bool
  | false, .opening => some true
  | true, .closing => some false
  | true, .inner => some true
  | inside, .neutral => some inside
  | _, _ => none

/-- Read marks one after another. -/
def readAll : Bool → List Mark → Option Bool
  | inside, [] => some inside
  | inside, mark :: rest => (read inside mark).bind fun inside => readAll inside rest

variable {inside after : Bool} {marks more : List Mark}

/-- Reading goes on where it stopped, by induction on the marks. -/
theorem readAll_append
    : readAll inside (marks ++ more)
      = (readAll inside marks).bind fun inside => readAll inside more := by
  induction marks generalizing inside with
  | nil => rfl
  | cons mark rest ih =>
      simp only [List.cons_append, readAll, Option.bind_assoc, ih]

/-- Neutral marks change nothing, by induction on the marks. -/
theorem readAll_neutral (neutral : ∀ mark ∈ marks, mark = .neutral)
    : readAll inside marks = some inside := by
  induction marks with
  | nil => rfl
  | cons mark rest ih =>
      obtain rfl := neutral mark (by simp)
      have here : read inside .neutral = some inside := by cases inside <;> rfl
      rw [readAll, here, Option.bind_some]
      exact ih fun other member => neutral other (by simp [member])

/-- Inside a period there may be any inner and neutral marks, by induction on the marks. -/
theorem readAll_inside (calm : ∀ mark ∈ marks, mark = .inner ∨ mark = .neutral)
    : readAll true marks = some true := by
  induction marks with
  | nil => rfl
  | cons mark rest ih =>
      have here : read true mark = some true := by
        rcases calm mark (by simp) with rfl | rfl <;> rfl
      rw [readAll, here, Option.bind_some]
      exact ih fun other member => calm other (by simp [member])

/-- A sequence that is read opens a period as often as it closes one, up to the periods at
its two ends; by induction on the marks.
-/
theorem count_of_readAll (reads : readAll inside marks = some after)
    : marks.count .opening + inside.toNat = marks.count .closing + after.toNat := by
  induction marks generalizing inside with
  | nil =>
      obtain rfl := Option.some.inj reads
      rfl
  | cons mark rest ih =>
      obtain ⟨next, here, later⟩ := Option.bind_eq_some_iff.mp reads
      have counted := ih later
      cases inside <;> cases mark <;> cases here
        <;> simp only [List.count_cons, Bool.toNat_true, Bool.toNat_false] at counted ⊢
        <;> simp at counted ⊢
        <;> omega

end Mark

end Library
