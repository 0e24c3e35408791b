import Mathlib.Data.Finset.Card
import Mathlib.Data.List.DropRight

/-! The last elements of a growing list, as a cache or a buffer of bounded size keeps them. -/

namespace Library

variable {α : Type} {list before between : List α} {a : α} {capacity : Nat}

/-- Only the last elements matter for what the last elements are after one more. -/
theorem rtake_concat_rtake
    : (list.rtake capacity ++ [a]).rtake capacity = (list ++ [a]).rtake capacity := by
  simp only [List.rtake, List.length_append, List.length_drop, List.length_singleton]
  rw [List.drop_append, List.drop_append, List.drop_drop, List.length_drop]
  congr 2 <;> omega

/-- Dropping the first element keeps all but one. -/
theorem tail_eq_rtake : list.tail = list.rtake (list.length - 1) := by
  cases list with
  | nil => rfl
  | cons first rest => simp [List.rtake]

theorem mem_rtake_of_mem_rtake_tail (inside : a ∈ list.tail.rtake capacity)
    : a ∈ list.rtake capacity := by
  cases list with
  | nil => exact inside
  | cons first rest =>
      simp only [List.rtake, List.tail_cons, List.length_cons] at *
      by_cases short : capacity ≤ rest.length
      · rwa [Nat.sub_add_comm short, List.drop_succ_cons]
      · rw [Nat.sub_eq_zero_of_le (by omega), List.drop_zero]
        exact List.mem_cons_of_mem _ (List.mem_of_mem_drop inside)

/-- A list that is too short is filled up. -/
theorem rtake_replicate_append (filler : α)
    : (List.replicate capacity filler ++ list).rtake capacity
      = List.replicate (capacity - list.length) filler ++ list.rtake capacity := by
  simp only [List.rtake, List.length_append, List.length_replicate]
  rw [Nat.add_sub_cancel_left, List.drop_append, List.drop_replicate, List.length_replicate]

/-- An element that was there and is no longer among the last ones has all of them behind
it.
-/
theorem rtake_eq_of_not_mem (gone : a ∉ (before ++ a :: between).rtake capacity)
    : capacity ≤ between.length
      ∧ (before ++ a :: between).rtake capacity = between.rtake capacity := by
  have enough : capacity ≤ between.length := by
    by_contra short
    apply gone
    simp only [List.rtake, List.length_append, List.length_cons]
    rw [List.drop_append_of_le_length (by omega)]
    simp
  refine ⟨enough, ?_⟩
  have split : before ++ a :: between = (before ++ [a]) ++ between := by simp
  rw [split]
  generalize before ++ [a] = front
  simp only [List.rtake, List.length_append]
  rw [List.drop_append, List.drop_eq_nil_of_le (by omega), List.nil_append]
  congr 1
  omega

/-- If the last elements are distinct, an element comes back only after as many different
ones as the cache holds.
-/
theorem capacity_le_card_between [DecidableEq α]
    (nodup : ((before ++ a :: between).rtake capacity).Nodup)
    (gone : a ∉ (before ++ a :: between).rtake capacity)
    : capacity ≤ (between.toFinset.erase a).card := by
  obtain ⟨enough, same⟩ := rtake_eq_of_not_mem gone
  rw [same] at nodup gone
  have length : (between.rtake capacity).length = capacity := by
    simp only [List.rtake, List.length_drop]
    omega
  calc capacity
      = (between.rtake capacity).toFinset.card := by
        rw [List.toFinset_card_of_nodup nodup, length]
    _ ≤ (between.toFinset.erase a).card := by
        apply Finset.card_le_card
        intro other member
        rw [List.mem_toFinset] at member
        rw [Finset.mem_erase, List.mem_toFinset]
        refine ⟨?_, List.mem_of_mem_drop member⟩
        intro same
        exact gone (same ▸ member)

/-- Enough elements at the end are all that is looked at. -/
theorem rtake_append_of_le_length (enough : capacity ≤ between.length)
    : (before ++ between).rtake capacity = between.rtake capacity := by
  simp only [List.rtake, List.length_append]
  rw [List.drop_append, List.drop_eq_nil_of_le (by omega), List.nil_append]
  congr 1
  omega

/-- What is among the last elements stays among them when others are left out. -/
theorem mem_rtake_of_sublist {left right : List α} (sublist : left.Sublist right)
    (nodup : right.Nodup) (member : a ∈ left) (recent : a ∈ right.rtake capacity)
    : a ∈ left.rtake capacity := by
  obtain ⟨front, back, rfl⟩ := List.append_of_mem member
  obtain ⟨skipped, rest, rfl, -, later⟩ := List.append_sublist_iff.mp sublist
  obtain ⟨here, behind, rfl, inside, shorter⟩ := List.cons_sublist_iff.mp later
  by_contra gone
  have enough := (rtake_eq_of_not_mem gone).1.trans shorter.length_le
  rw [← List.append_assoc, rtake_append_of_le_length enough] at recent
  rw [List.nodup_append, List.nodup_append] at nodup
  exact nodup.2.1.2.2 a inside a (List.mem_of_mem_drop recent) rfl

-----------------------------------------------------------------------------------------
-- Lists with a common end
-----------------------------------------------------------------------------------------

/-- One of two lists ends with the other. -/
def SameEnd (left right : List α) : Prop := left <:+ right ∨ right <:+ left

namespace SameEnd

variable {left right : List α}

theorem append (same : SameEnd left right) (more : List α)
    : SameEnd (left ++ more) (right ++ more) := by
  rcases same with shorter | longer
  · exact .inl (List.suffix_append_self_iff.mpr shorter)
  · exact .inr (List.suffix_append_self_iff.mpr longer)

/-- Whatever is cut off at the front does not matter. -/
theorem of_suffix {shortened : List α} (same : SameEnd left right) (cut : shortened <:+ left)
    : SameEnd shortened right := by
  rcases same with shorter | longer
  · exact .inl (cut.trans shorter)
  · exact List.suffix_or_suffix_of_suffix cut longer

/-- A piece of one list that starts where the other one has begun is a piece of both. -/
theorem infix_of_late {skipped piece rest : List α}
    (same : SameEnd (skipped ++ (piece ++ rest)) right)
    (late : (skipped ++ (piece ++ rest)).length - right.length ≤ skipped.length)
    : piece <:+: right := by
  have ending : piece ++ rest <:+ right := by
    rcases same with shorter | longer
    · exact (List.suffix_append _ _).trans shorter
    · refine List.suffix_of_suffix_length_le (List.suffix_append skipped _) longer ?_
      rw [List.length_append] at late
      omega
  exact (List.prefix_append piece rest).isInfix.trans ending.isInfix

end SameEnd

end Library
