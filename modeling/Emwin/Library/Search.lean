import Mathlib.Data.List.Infix
import Mathlib.Data.List.Lemmas

/-! First occurrence of a fixed pattern in a list, as a sliding window finds it. -/

namespace Library

variable {α : Type} [DecidableEq α]

/-- Index of the first window of `haystack` equal to `needle`.
An empty needle is found at once; otherwise a too short haystack holds no window.
-/
def windowPosition (needle : List α) : List α → Option Nat
  | [] => if needle = [] then some 0 else none
  | head :: rest =>
      if needle <+: head :: rest then some 0
      else (windowPosition needle rest).map (· + 1)

theorem windowPosition_of_start {needle haystack : List α} (h : needle <+: haystack)
    : windowPosition needle haystack = some 0 := by
  cases haystack with
  | nil => simp [windowPosition, List.prefix_nil.mp h]
  | cons head rest => simp [windowPosition, h]

/-- The search reports no later index than that of a known occurrence. -/
theorem windowPosition_le (needle left right : List α)
    : ∃ index,
        windowPosition needle (left ++ (needle ++ right)) = some index
        ∧ index ≤ left.length := by
  induction left with
  | nil => exact ⟨0, windowPosition_of_start (List.prefix_append needle right), le_rfl⟩
  | cons head rest ih =>
      by_cases first : needle <+: head :: rest ++ (needle ++ right)
      · exact ⟨0, windowPosition_of_start first, Nat.zero_le _⟩
      · obtain ⟨index, found, bound⟩ := ih
        refine ⟨index + 1, ?_, Nat.succ_le_succ bound⟩
        rw [List.cons_append] at first ⊢
        simp [windowPosition, first, found]

/-- A reported index splits the haystack around the needle, by haystack induction. -/
theorem windowPosition_split {needle haystack : List α} {index : Nat}
    (found : windowPosition needle haystack = some index)
    : haystack = haystack.take index ++ needle ++ haystack.drop (index + needle.length)
      ∧ index + needle.length ≤ haystack.length := by
  induction haystack generalizing index with
  | nil =>
      simp only [windowPosition] at found
      split at found
      · next empty =>
          obtain rfl : index = 0 := by simpa using found.symm
          simp [empty]
      · cases found
  | cons head rest ih =>
      simp only [windowPosition] at found
      split at found
      · next h =>
          obtain rfl : index = 0 := by simpa using found.symm
          obtain ⟨tail, same⟩ := h
          have length := congrArg List.length same
          simp only [List.length_append] at length
          refine ⟨?_, by simp only [Nat.zero_add]; omega⟩
          simp [← same]
      · simp only [Option.map_eq_some_iff] at found
        obtain ⟨earlier, inner, rfl⟩ := found
        obtain ⟨split, bound⟩ := ih inner
        have shift : earlier + 1 + needle.length = earlier + needle.length + 1 := by omega
        refine ⟨?_, by simp only [List.length_cons]; omega⟩
        rw [shift, List.take_succ_cons, List.drop_succ_cons, List.cons_append,
          List.cons_append, ← split]

/-- The needle stands at the reported index. -/
theorem prefix_drop_of_windowPosition {needle haystack : List α} {index : Nat}
    (found : windowPosition needle haystack = some index)
    : needle <+: haystack.drop index := by
  obtain ⟨split, bound⟩ := windowPosition_split found
  have length : (haystack.take index).length = index := List.length_take_of_le (by omega)
  have behind := congrArg (List.drop index) split
  rw [List.append_assoc, List.drop_left' length] at behind
  exact ⟨_, behind.symm⟩

omit [DecidableEq α] in
/-- A window inside a list does not see what is appended to it. -/
theorem take_drop_append {list : List α} {start count : Nat} (more : List α)
    (inside : start + count ≤ list.length)
    : ((list ++ more).drop start).take count = (list.drop start).take count := by
  rw [List.drop_append_of_le_length (by omega), List.take_append_of_le_length]
  rw [List.length_drop]
  omega

/-- An index reported inside the front of a haystack is an occurrence there. -/
theorem infix_of_windowPosition {needle haystack more : List α} {index : Nat}
    (found : windowPosition needle (haystack ++ more) = some index)
    (inside : index + needle.length ≤ haystack.length)
    : needle <:+: haystack := by
  have window : ((haystack ++ more).drop index).take needle.length = needle := by
    obtain ⟨split, bound⟩ := windowPosition_split found
    have before : ((haystack ++ more).take index).length = index := by
      rw [List.length_take]
      omega
    rw [split, List.append_assoc, List.drop_left' before, List.take_left]
  rw [take_drop_append more inside] at window
  rw [← window]
  exact (List.take_prefix _ _).isInfix.trans (List.drop_suffix _ _).isInfix

/-- No occurrence means that the needle is not an infix, by haystack induction. -/
theorem windowPosition_eq_none_iff {needle haystack : List α}
    : windowPosition needle haystack = none ↔ ¬ needle <:+: haystack := by
  induction haystack with
  | nil => simp [windowPosition]
  | cons head rest ih =>
      by_cases h : needle <+: head :: rest
      · simp [windowPosition, h, h.isInfix]
      · simp [windowPosition, h, ih, List.infix_cons_iff]

omit [DecidableEq α] in
/-- A prefix test already decided by the first elements ignores an extension. -/
theorem prefix_append_iff {needle haystack : List α} (more : List α)
    (long : needle.length ≤ haystack.length)
    : needle <+: haystack ++ more ↔ needle <+: haystack := by
  constructor
  · intro h
    exact List.prefix_of_prefix_length_le h (List.prefix_append haystack more) long
  · intro h
    exact h.trans (List.prefix_append haystack more)

/-- An occurrence found early is found at the same index in every extension. -/
theorem windowPosition_append {needle haystack : List α} {index : Nat} (more : List α)
    (found : windowPosition needle haystack = some index)
    : windowPosition needle (haystack ++ more) = some index := by
  induction haystack generalizing index with
  | nil =>
      simp only [windowPosition] at found
      split at found
      · next h =>
          obtain rfl : index = 0 := by simpa using found.symm
          exact windowPosition_of_start (h ▸ List.nil_prefix)
      · cases found
  | cons head rest ih =>
      by_cases h : needle <+: head :: rest
      · obtain rfl : index = 0 := by simpa [windowPosition, h] using found.symm
        exact windowPosition_of_start (h.trans (List.prefix_append _ _))
      · simp only [windowPosition, h, if_false, Option.map_eq_some_iff] at found
        obtain ⟨earlier, inner, rfl⟩ := found
        have long : needle.length ≤ (head :: rest).length := by
          have bound := (windowPosition_split inner).2
          simp only [List.length_cons]
          omega
        have h' : ¬ needle <+: head :: (rest ++ more) := by
          rw [← List.cons_append, prefix_append_iff more long]
          exact h
        simp [List.cons_append, windowPosition, h', ih inner]

/-- A searched prefix can be dropped once its last `needle.length - 1` elements are kept:
no occurrence starts before them. Witness: induction on the dropped part; each window that
starts there lies inside the searched list.
-/
theorem windowPosition_overlap {needle searched overlap : List α} (more : List α)
    (absent : windowPosition needle (searched ++ overlap) = none)
    (kept : overlap.length + 1 = needle.length)
    : windowPosition needle (searched ++ overlap ++ more)
      = (windowPosition needle (overlap ++ more)).map (· + searched.length) := by
  induction searched with
  | nil => simp
  | cons head rest ih =>
      have notHere : ¬ needle <+: head :: (rest ++ overlap) := by
        intro h
        simp [windowPosition, h] at absent
      have notLater : windowPosition needle (rest ++ overlap) = none := by
        simpa [windowPosition, notHere] using absent
      have notHere' : ¬ needle <+: head :: (rest ++ overlap ++ more) := by
        rw [← List.cons_append, prefix_append_iff]
        · exact notHere
        · simp only [List.length_cons, List.length_append]
          omega
      rw [List.cons_append, List.cons_append]
      simp only [windowPosition, notHere', if_false, ih notLater, Option.map_map]
      congr 1

/-- The search goes on behind an element that the needle does not hold, if the needle is not
before it; by induction on the part before it.
-/
theorem windowPosition_skip {needle searched : List α} {barrier : α} (more : List α)
    (absent : windowPosition needle searched = none) (foreign : barrier ∉ needle)
    : windowPosition needle (searched ++ barrier :: more)
      = (windowPosition needle more).map (· + (searched.length + 1)) := by
  induction searched with
  | nil =>
      have some : needle ≠ [] := by
        rintro rfl
        simp [windowPosition] at absent
      have notHere : ¬ needle <+: barrier :: more := by
        cases needle with
        | nil => exact absurd rfl some
        | cons first needle =>
            intro here
            obtain ⟨same, -⟩ := List.cons_prefix_cons.mp here
            exact foreign (by simp [same])
      simp [windowPosition, notHere]
  | cons head rest ih =>
      have notHere : ¬ needle <+: head :: rest := by
        intro here
        simp [windowPosition, here] at absent
      have notLater : windowPosition needle rest = none := by
        simpa [windowPosition, notHere] using absent
      have notHere' : ¬ needle <+: head :: (rest ++ barrier :: more) := by
        intro here
        by_cases short : needle.length ≤ (head :: rest).length
        · exact notHere (List.prefix_of_prefix_length_le here (List.prefix_append _ _) short)
        · -- a longer needle would reach the barrier
          have beyond : head :: rest ++ [barrier] <+: needle := by
            refine List.prefix_of_prefix_length_le ⟨more, by simp⟩ here ?_
            simp only [List.length_append, List.length_singleton]
            omega
          exact foreign (beyond.mem (by simp))
      rw [List.cons_append]
      simp only [windowPosition, notHere', if_false, ih notLater, Option.map_map]
      rfl

/-- No window before the reported one is an occurrence, by haystack induction. -/
theorem windowPosition_first {needle haystack : List α} {index : Nat}
    (found : windowPosition needle haystack = some index) {earlier : Nat}
    (before : earlier < index)
    : ¬ needle <+: haystack.drop earlier := by
  induction haystack generalizing index earlier with
  | nil =>
      simp only [windowPosition] at found
      split at found
      · cases found
        omega
      · cases found
  | cons head rest ih =>
      simp only [windowPosition] at found
      split at found
      · cases found
        omega
      · next notHere =>
          obtain ⟨inner, later, rfl⟩ := Option.map_eq_some_iff.mp found
          cases earlier with
          | zero => exact notHere
          | succ earlier => exact ih later (by omega)

omit [DecidableEq α] in
/-- A needle does not start in a part without its first element, by induction on the part. -/
theorem infix_of_infix_append {first : α} {needle right : List α} (left : List α)
    (absent : first ∉ left) (found : first :: needle <:+: left ++ right)
    : first :: needle <:+: right := by
  induction left with
  | nil => exact found
  | cons head rest ih =>
      rcases List.infix_cons_iff.mp found with here | later
      · obtain ⟨same, -⟩ := List.cons_prefix_cons.mp here
        exact absurd (by simp [same]) absent
      · exact ih (fun inside => absent (by simp [inside])) later

/-- The first occurrence stays the first one when elements in front of it go, by induction on the
haystack.
-/
theorem windowPosition_drop {needle haystack : List α} {index count : Nat}
    (found : windowPosition needle haystack = some index) (before : count ≤ index)
    : windowPosition needle (haystack.drop count) = some (index - count) := by
  induction haystack generalizing index count with
  | nil =>
      obtain rfl : index = 0 := by
        simp only [windowPosition] at found
        split at found
        · exact (Option.some.inj found).symm
        · cases found
      simpa using found
  | cons head rest ih =>
      cases count with
      | zero => simpa using found
      | succ count =>
          rw [windowPosition] at found
          split at found
          · obtain rfl := Option.some.inj found
            omega
          · obtain ⟨inner, later, rfl⟩ := Option.map_eq_some_iff.mp found
            rw [List.drop_succ_cons, ih later (by omega)]
            congr 1
            omega

end Library
