import Mathlib.Data.List.Infix
import Mathlib.Data.List.Lemmas

/-! Cutting a list into blocks of one size, shortening the blocks again, and lists of outputs
of which one is delivered.
-/

namespace Library

variable {α : Type}

/-- The first `count` blocks of a list; the last of them may be shorter. -/
def cutBlocks (size : Nat) : Nat → List α → List (List α)
  | 0, _ => []
  | count + 1, list => list.take size :: cutBlocks size count (list.drop size)

/-- Enough blocks hold the whole list, by induction on their number. -/
theorem flatten_cutBlocks {size count : Nat} {list : List α}
    (enough : list.length ≤ size * count)
    : (cutBlocks size count list).flatten = list := by
  induction count generalizing list with
  | zero =>
      rw [Nat.mul_zero, Nat.le_zero, List.length_eq_zero_iff] at enough
      rw [enough]
      rfl
  | succ count ih =>
      have rest : (list.drop size).length ≤ size * count := by
        rw [List.length_drop]
        rw [Nat.mul_succ] at enough
        omega
      rw [cutBlocks, List.flatten_cons, ih rest, List.take_append_drop]

theorem length_le_of_mem_cutBlocks {size count : Nat} {list block : List α}
    (member : block ∈ cutBlocks size count list)
    : block.length ≤ size := by
  induction count generalizing list with
  | zero => exact absurd member List.not_mem_nil
  | succ count ih =>
      rcases List.mem_cons.mp member with rfl | later
      · exact List.length_take_le size list
      · exact ih later

/-- The last block ends where the list ends, if it is not empty. -/
theorem getLast?_cutBlocks {size count : Nat} {list : List α}
    (more : size * count < list.length) (enough : list.length ≤ size * (count + 1))
    : ∃ inner last,
        cutBlocks size (count + 1) list = inner ++ [last]
        ∧ last.getLast? = list.getLast? := by
  induction count generalizing list with
  | zero =>
      refine ⟨[], list, ?_, rfl⟩
      rw [Nat.zero_add, Nat.mul_one] at enough
      rw [cutBlocks, cutBlocks, List.take_of_length_le enough, List.nil_append]
  | succ count ih =>
      rw [Nat.mul_succ] at more enough
      have restMore : size * count < (list.drop size).length := by
        rw [List.length_drop]
        omega
      obtain ⟨inner, last, cut, ends⟩ :=
        ih restMore (by rw [List.length_drop]; omega)
      refine ⟨list.take size :: inner, last, by rw [cutBlocks, cut]; rfl, ?_⟩
      rw [ends, List.getLast?_drop, if_neg (by omega)]

/-- Shortened blocks make the same list exactly if no block lost anything.
Witness: a first block that lost something leaves fewer elements than the list has.
-/
theorem flatten_map_eq_iff {shorten : List α → List α}
    (shorter : ∀ block, shorten block <+: block) (blocks : List (List α))
    : (blocks.map shorten).flatten = blocks.flatten
      ↔ ∀ block ∈ blocks, shorten block = block := by
  have bounded (blocks : List (List α))
      : (blocks.map shorten).flatten.length ≤ blocks.flatten.length := by
    induction blocks with
    | nil => exact le_rfl
    | cons block blocks ih =>
        have head := (shorter block).length_le
        simp only [List.map_cons, List.flatten_cons, List.length_append]
        omega
  induction blocks with
  | nil => simp
  | cons block blocks ih =>
      rw [List.forall_mem_cons, List.map_cons, List.flatten_cons, List.flatten_cons]
      constructor
      · intro same
        have lengths := congrArg List.length same
        have tail := bounded blocks
        have head := (shorter block).length_le
        rw [List.length_append, List.length_append] at lengths
        have kept : shorten block = block := (shorter block).eq_of_length (by omega)
        rw [kept] at same
        exact ⟨kept, ih.mp (List.append_cancel_left same)⟩
      · rintro ⟨kept, rest⟩
        rw [kept, ih.mpr rest]

/-- An output that appears at exactly one place, among nothing else, is the only one. -/
theorem filterMap_eq_singleton {output : α} {outputs : List (Option α)}
    (only : ∀ entry ∈ outputs, entry = none ∨ entry = some output)
    (once : ∃! index : Nat, outputs[index]? = some (some output))
    : outputs.filterMap id = [output] := by
  obtain ⟨index, at', unique⟩ := once
  obtain ⟨inside, same⟩ := List.getElem?_eq_some_iff.mp at'
  have quiet (part : List (Option α)) (sub : ∀ entry ∈ part, entry ∈ outputs)
      (absent : some output ∉ part)
      : part.filterMap id = [] := by
    refine List.filterMap_eq_nil_iff.mpr fun entry member => ?_
    exact (only entry (sub entry member)).resolve_right fun found => absent (found ▸ member)
  have before : some output ∉ outputs.take index := by
    intro member
    obtain ⟨other, inTake, found⟩ := List.getElem_of_mem member
    rw [List.length_take] at inTake
    rw [List.getElem_take] at found
    have := unique other (List.getElem?_eq_some_iff.mpr ⟨by omega, found⟩)
    omega
  have after : some output ∉ outputs.drop (index + 1) := by
    intro member
    obtain ⟨other, inDrop, found⟩ := List.getElem_of_mem member
    rw [List.length_drop] at inDrop
    rw [List.getElem_drop] at found
    have := unique (index + 1 + other) (List.getElem?_eq_some_iff.mpr ⟨by omega, found⟩)
    omega
  have split : outputs = outputs.take index ++ some output :: outputs.drop (index + 1) := by
    rw [← same, List.getElem_cons_drop, List.take_append_drop]
  rw [split, List.filterMap_append, quiet _ (fun _ => List.mem_of_mem_take) before,
    List.filterMap_cons, quiet _ (fun _ => List.mem_of_mem_drop) after]
  rfl

end Library
