import Mathlib.Data.List.Dedup
import Mathlib.Data.List.Destutter
import Mathlib.Data.List.Sort

/-! Sorting with removal of duplicates, and shuffling by swaps from the back. -/

namespace Library

variable {α σ : Type}

section
variable [DecidableEq α]

/-- Sort, then drop every element that equals the one before it. -/
def sortDedup (le : α → α → Prop) [DecidableRel le] (list : List α) : List α :=
  (list.insertionSort le).destutter (· ≠ ·)

/-- Dropping repetitions keeps every value, by induction on the list. -/
theorem mem_destutter'_ne {list : List α} {first a : α}
    : a ∈ list.destutter' (· ≠ ·) first ↔ a = first ∨ a ∈ list := by
  induction list generalizing first with
  | nil => simp
  | cons head rest ih =>
      by_cases same : first = head
      · rw [List.destutter'_cons_neg _ (by simpa using same), ih, List.mem_cons, same]
        simp
      · rw [List.destutter'_cons_pos _ (by simpa using same), List.mem_cons, ih,
          List.mem_cons]

theorem mem_sortDedup {le : α → α → Prop} [DecidableRel le] {list : List α} {a : α}
    : a ∈ sortDedup le list ↔ a ∈ list := by
  rw [sortDedup, ← (List.perm_insertionSort le list).mem_iff]
  cases list.insertionSort le with
  | nil => simp
  | cons first rest => rw [List.destutter_cons', mem_destutter'_ne, List.mem_cons]

variable {le : α → α → Prop} [Std.Antisymm le]

/-- In a sorted list equal elements stand together, so dropping repetitions leaves no
duplicate; by induction on the list.
-/
theorem nodup_destutter'_ne {list : List α} {first : α}
    (sorted : (first :: list).Pairwise le)
    : (list.destutter' (· ≠ ·) first).Nodup := by
  induction list generalizing first with
  | nil => simp
  | cons head rest ih =>
      obtain ⟨below, sortedRest⟩ := List.pairwise_cons.mp sorted
      by_cases same : first = head
      · rw [List.destutter'_cons_neg _ (by simpa using same)]
        exact ih (same ▸ sortedRest)
      · rw [List.destutter'_cons_pos _ (by simpa using same), List.nodup_cons]
        refine ⟨?_, ih sortedRest⟩
        intro again
        rcases mem_destutter'_ne.mp again with equal | later
        · exact same equal
        · have before := List.rel_of_pairwise_cons sortedRest later
          exact same (antisymm (below head (by simp)) before)

theorem nodup_sortDedup [DecidableRel le] [Std.Total le] [IsTrans α le] (list : List α)
    : (sortDedup le list).Nodup := by
  have sorted := List.pairwise_insertionSort le list
  rw [sortDedup]
  cases sort : list.insertionSort le with
  | nil => simp
  | cons first rest =>
      rw [List.destutter_cons']
      exact nodup_destutter'_ne (sort ▸ sorted)

/-- Sorting with removal of duplicates keeps each value once. -/
theorem sortDedup_perm_dedup [DecidableRel le] [Std.Total le] [IsTrans α le] (list : List α)
    : (sortDedup le list).Perm list.dedup := by
  rw [List.perm_ext_iff_of_nodup (nodup_sortDedup list) list.nodup_dedup]
  intro a
  rw [mem_sortDedup, List.mem_dedup]

end

/-- Swap two elements; positions outside the list change nothing. -/
def swapAt (list : List α) (i j : Nat) : List α := (list.toArray.swapIfInBounds i j).toList

theorem swapAt_perm (list : List α) (i j : Nat) : (swapAt list i j).Perm list := by
  rw [swapAt, Array.swapIfInBounds_def]
  split
  · split
    · exact (Array.swap_perm _ _).toList
    · rfl
  · rfl

/-- From position `idx` down to the second element, swap each one with an element at or
before it, picked by a generator.
-/
def shuffleDown (next : σ → σ) (pick : σ → Nat) : Nat → σ → List α → List α
  | 0, _, list => list
  | idx + 1, state, list =>
      let state := next state
      shuffleDown next pick idx state (swapAt list (idx + 1) (pick state % (idx + 2)))

/-- A shuffle loses and invents nothing, by induction on the position. -/
theorem shuffleDown_perm (next : σ → σ) (pick : σ → Nat) (idx : Nat) (state : σ)
    (list : List α)
    : (shuffleDown next pick idx state list).Perm list := by
  induction idx generalizing state list with
  | zero => exact .rfl
  | succ idx ih => exact (ih _ _).trans (swapAt_perm _ _ _)

end Library
