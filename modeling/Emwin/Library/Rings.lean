import Mathlib.Data.List.Rotate
import Mathlib.Algebra.Ring.Parity

/-! Closed rings of vertices: their edges, and what does not depend on where a ring starts. -/

namespace Library

variable {α : Type}

/-- The edges of a path from a vertex through others. -/
def pathEdges (previous : α) : List α → List (α × α)
  | [] => []
  | current :: rest => (previous, current) :: pathEdges current rest

/-- The edges of a closed ring; the first one comes from the last vertex. -/
def ringEdges (ring : List α) : List (α × α) :=
  match ring.getLast? with
  | none => []
  | some last => pathEdges last ring

theorem pathEdges_concat (previous : α) (path : List α) (vertex : α)
    : pathEdges previous (path ++ [vertex])
      = pathEdges previous path ++ [(path.getLast?.getD previous, vertex)] := by
  induction path generalizing previous with
  | nil => rfl
  | cons current path ih =>
      rw [List.cons_append, pathEdges, ih, pathEdges, List.cons_append, List.getLast?_cons]
      rfl

theorem ringEdges_cons (vertex : α) (rest : List α)
    : ringEdges (vertex :: rest)
      = (rest.getLast?.getD vertex, vertex) :: pathEdges vertex rest := by
  rw [ringEdges, List.getLast?_cons]
  rfl

theorem ringEdges_concat (rest : List α) (vertex : α)
    : ringEdges (rest ++ [vertex])
      = pathEdges vertex rest ++ [(rest.getLast?.getD vertex, vertex)] := by
  rw [ringEdges, List.getLast?_concat]
  exact pathEdges_concat vertex rest vertex

/-- Moving the first vertex to the end moves its edge. -/
theorem ringEdges_rotate_one (vertex : α) (rest : List α)
    : (ringEdges (rest ++ [vertex])).Perm (ringEdges (vertex :: rest)) := by
  rw [ringEdges_concat, ringEdges_cons]
  exact List.perm_append_comm

/-- The edges do not depend on where the ring starts, by induction on the rotation. -/
theorem ringEdges_rotate (ring : List α) (count : Nat)
    : (ringEdges (ring.rotate count)).Perm (ringEdges ring) := by
  induction count with
  | zero => rw [List.rotate_zero]
  | succ count ih =>
      rw [← List.rotate_rotate]
      refine List.Perm.trans ?_ ih
      cases ring.rotate count with
      | nil => rw [List.rotate_nil]
      | cons vertex rest =>
          rw [List.rotate_cons_succ, List.rotate_zero]
          exact ringEdges_rotate_one vertex rest

/-- The last vertex of a path starts the path walked backwards. -/
theorem exists_reverse_cons (vertex : α) (rest : List α)
    : ∃ front,
        (vertex :: rest).reverse = rest.getLast?.getD vertex :: front
        ∧ front.getLast?.getD (rest.getLast?.getD vertex) = vertex := by
  obtain ⟨last, front, whole⟩ :=
    List.exists_cons_of_ne_nil (List.reverse_ne_nil_iff.mpr (List.cons_ne_nil vertex rest))
  have first : rest.getLast?.getD vertex = last := by
    have head := congrArg List.head? whole
    rw [List.head?_reverse, List.getLast?_cons] at head
    exact Option.some.inj head
  have ends : front.getLast?.getD last = vertex := by
    have final := congrArg List.getLast? whole
    rw [List.getLast?_reverse, List.getLast?_cons] at final
    exact (Option.some.inj final).symm
  exact ⟨front, by rw [whole, first], by rw [first, ends]⟩

/-- The edges of a path walked backwards, by induction on the path. -/
theorem pathEdges_reverse (previous : α) (path : List α)
    : (pathEdges previous path).reverse.map Prod.swap
      = pathEdges (path.getLast?.getD previous) (previous :: path).reverse.tail := by
  induction path generalizing previous with
  | nil => rfl
  | cons current path ih =>
      obtain ⟨front, whole, ends⟩ := exists_reverse_cons current path
      have longer : (previous :: current :: path).reverse
          = (current :: path).reverse ++ [previous] := List.reverse_cons
      rw [pathEdges, List.reverse_cons, List.map_append, ih, List.getLast?_cons, longer, whole]
      simp only [List.tail_cons, List.cons_append, Option.getD_some]
      rw [pathEdges_concat, ends]
      rfl

/-- The edges of a ring walked backwards. -/
theorem ringEdges_reverse (ring : List α)
    : (ringEdges ring.reverse).Perm ((ringEdges ring).map Prod.swap) := by
  cases ring with
  | nil => exact .refl _
  | cons vertex rest =>
      obtain ⟨front, whole, ends⟩ := exists_reverse_cons vertex rest
      have path := pathEdges_reverse vertex rest
      rw [whole, List.tail_cons] at path
      rw [whole, ringEdges_cons, ends, ringEdges_cons, List.map_cons, ← path]
      exact ((List.reverse_perm _).map Prod.swap).cons _

/-- Both ends of an edge are vertices. -/
theorem mem_of_mem_pathEdges {previous : α} {path : List α} {edge : α × α}
    (member : edge ∈ pathEdges previous path)
    : (edge.1 = previous ∨ edge.1 ∈ path) ∧ edge.2 ∈ path := by
  induction path generalizing previous with
  | nil => cases member
  | cons current path ih =>
      rcases List.mem_cons.mp member with rfl | later
      · exact ⟨.inl rfl, List.mem_cons_self⟩
      · obtain ⟨start, stop⟩ := ih later
        refine ⟨.inr ?_, List.mem_cons_of_mem _ stop⟩
        rcases start with same | inside
        · exact same ▸ List.mem_cons_self
        · exact List.mem_cons_of_mem _ inside

theorem mem_of_mem_ringEdges {ring : List α} {edge : α × α} (member : edge ∈ ringEdges ring)
    : edge.1 ∈ ring ∧ edge.2 ∈ ring := by
  unfold ringEdges at member
  cases last : ring.getLast? with
  | none => simp [last] at member
  | some vertex =>
      rw [last] at member
      obtain ⟨start, stop⟩ := mem_of_mem_pathEdges member
      refine ⟨?_, stop⟩
      rcases start with same | inside
      · exact same ▸ List.mem_of_getLast? last
      · exact inside

/-- A path changes sides an odd number of times exactly if its ends are on different sides. By
induction on the path.
-/
theorem odd_countP_pathEdges (side : α → Bool) (previous : α) (path : List α)
    : Odd ((pathEdges previous path).countP fun edge => side edge.2 != side edge.1)
      ↔ side (path.getLast?.getD previous) ≠ side previous := by
  induction path generalizing previous with
  | nil => simp [pathEdges]
  | cons current path ih =>
      rw [pathEdges, List.countP_cons, List.getLast?_cons, Option.getD_some]
      have rest := ih current
      by_cases same : side current = side previous
      · simpa [same] using rest
      · have flips : (side current != side previous) = true := by simpa using same
        have other : side previous = !side current := by
          rw [Bool.eq_not]
          exact Ne.symm same
        rw [if_pos flips, Nat.odd_add_one, rest, other]
        simp

/-- A closed ring changes sides an even number of times. -/
theorem even_countP_ringEdges (side : α → Bool) (ring : List α)
    : Even ((ringEdges ring).countP fun edge => side edge.2 != side edge.1) := by
  unfold ringEdges
  cases last : ring.getLast? with
  | none => exact Even.zero
  | some vertex =>
      rw [← Nat.not_odd_iff_even, odd_countP_pathEdges, last]
      simp

end Library
