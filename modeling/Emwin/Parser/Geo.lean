import Emwin.Library.Rings
import Emwin.Library.Slices
import Emwin.Parser.Body
import Mathlib.Algebra.Order.Field.Basic
import Mathlib.Algebra.Order.Ring.Abs
import Mathlib.Algebra.Order.Field.Rat
import Mathlib.Tactic.FieldSimp
import Mathlib.Tactic.Linarith
import Mathlib.Tactic.Ring

/-! Points in polygons, over exact coordinates. -/

namespace Emwin.Parser
open Library

variable {F : Type} [Field F] [LinearOrder F]

/-- A division by zero was evaluated. -/
inductive DivisionByZero where
  | fault
  deriving DecidableEq, Repr

/-- A division that is noted where its divisor is zero. -/
def divide (numerator divisor : F) : Except DivisionByZero F :=
  if divisor = 0 then .error .fault else .ok (numerator / divisor)

def boundsContains (bounds : GeoBounds F) (point : GeoPoint F) : Bool :=
  bounds.minLat ≤ point.lat && point.lat ≤ bounds.maxLat
  && bounds.minLon ≤ point.lon && point.lon ≤ bounds.maxLon

/-- `EPSILON`. -/
def epsilon : F := 1 / 10 ^ 9

def pointOnSegment (point : GeoPoint F) (start stop : F × F) : Bool :=
  let cross :=
    (point.lat - start.1) * (stop.2 - start.2) - (point.lon - start.2) * (stop.1 - start.1)
  if epsilon < |cross| then false
  else
    min start.1 stop.1 - epsilon ≤ point.lat && point.lat ≤ max start.1 stop.1 + epsilon
    && min start.2 stop.2 - epsilon ≤ point.lon && point.lon ≤ max start.2 stop.2 + epsilon

/-- An edge has one end north of the point and the other not. -/
def straddles (point : GeoPoint F) (edge : (F × F) × (F × F)) : Bool :=
  decide (point.lat < edge.2.1) != decide (point.lat < edge.1.1)

/-- Whether an edge, from the previous to the current vertex, is met to the east of the point. -/
def intersects (point : GeoPoint F) (previous current : F × F) : Except DivisionByZero Bool :=
  if straddles point (previous, current) then do
    let shift ←
      divide ((previous.2 - current.2) * (point.lat - current.1)) (previous.1 - current.1)
    return decide (point.lon ≤ shift + current.2)
  else return false

/-- The edges that are left, with the side that the point is on so far. -/
def pointInPolygonFrom (point : GeoPoint F) (inside : Bool) (previous : F × F)
    : List (F × F) → Except DivisionByZero Bool
  | [] => return inside
  | current :: rest =>
      if pointOnSegment point previous current then return true
      else do
        let crossed ← intersects point previous current
        pointInPolygonFrom point (if crossed then !inside else inside) current rest

def pointInPolygon (point : GeoPoint F) (polygon : List (F × F)) : Except DivisionByZero Bool :=
  if polygon.length < 3 then return false
  else
    match polygon.getLast? with
    | none => return false
    | some previous => pointInPolygonFrom point false previous polygon

-----------------------------------------------------------------------------------------
-- Edges
-----------------------------------------------------------------------------------------

/-- The edge passes the latitude of the point to the east of it. -/
def crossesEast (point : GeoPoint F) (edge : (F × F) × (F × F)) : Bool :=
  straddles point edge
  && decide (point.lon
      ≤ (edge.1.2 - edge.2.2) * (point.lat - edge.2.1) / (edge.1.1 - edge.2.1) + edge.2.2)

omit [Field F] in
theorem ne_of_straddles {point : GeoPoint F} {edge : (F × F) × (F × F)}
    (across : straddles point edge = true)
    : edge.1.1 ≠ edge.2.1 := by
  intro same
  simp [straddles, same] at across

/-- The division is only made for edges between two latitudes. -/
theorem intersects_eq (point : GeoPoint F) (previous current : F × F)
    : intersects point previous current = .ok (crossesEast point (previous, current)) := by
  unfold intersects crossesEast
  split
  · next across =>
      have apart : previous.1 - current.1 ≠ 0 := sub_ne_zero.mpr (ne_of_straddles across)
      rw [divide, if_neg apart, across]
      rfl
  · next level =>
      simp [level]
      rfl

/-- A point is inside if it is on an edge, or if it is west of an odd number of edges. By induction
on the edges.
-/
theorem pointInPolygonFrom_eq (point : GeoPoint F) (inside : Bool) (previous : F × F)
    (path : List (F × F))
    : pointInPolygonFrom point inside previous path
      = .ok ((pathEdges previous path).any (fun edge => pointOnSegment point edge.1 edge.2)
          || (inside ^^ decide (Odd ((pathEdges previous path).countP (crossesEast point))))) := by
  induction path generalizing inside previous with
  | nil => simp [pointInPolygonFrom, pathEdges, pure, Except.pure]
  | cons current path ih =>
      rw [pointInPolygonFrom, pathEdges, intersects_eq, ok_bind, ih, List.any_cons,
        List.countP_cons]
      split
      · next here =>
          simp [here]
          rfl
      · next apart =>
          simp only [apart, Bool.false_or]
          by_cases crossed : crossesEast point (previous, current) = true
          · simp only [crossed, if_true, Nat.odd_add_one, decide_not, Bool.not_xor, Bool.xor_not]
          · simp [crossed]

/-- What decides whether a point is inside, as a property of the edges. -/
def InsideRing (point : GeoPoint F) (edges : List ((F × F) × (F × F))) : Prop :=
  (∃ edge ∈ edges, pointOnSegment point edge.1 edge.2 = true)
  ∨ Odd (edges.countP (crossesEast point))

theorem pointInPolygon_eq {point : GeoPoint F} {ring : List (F × F)} (three : 3 ≤ ring.length)
    {answer : Bool}
    : pointInPolygon point ring = .ok answer
      ↔ (answer = true ↔ InsideRing point (ringEdges ring)) := by
  unfold pointInPolygon ringEdges InsideRing
  rw [if_neg (by omega)]
  cases last : ring.getLast? with
  | none =>
      rw [List.getLast?_eq_none_iff.mp last] at three
      simp at three
  | some vertex =>
      dsimp only
      rw [pointInPolygonFrom_eq, Except.ok.injEq]
      cases answer <;> simp

theorem insideRing_perm {point : GeoPoint F} {edges others : List ((F × F) × (F × F))}
    (perm : edges.Perm others)
    : InsideRing point edges ↔ InsideRing point others := by
  unfold InsideRing
  rw [perm.countP_eq]
  simp only [perm.mem_iff]

/-- Rings with the same inside get the same answer. -/
theorem pointInPolygon_congr {point : GeoPoint F} {ring other : List (F × F)}
    (three : 3 ≤ ring.length) (more : 3 ≤ other.length)
    (same : InsideRing point (ringEdges other) ↔ InsideRing point (ringEdges ring))
    : pointInPolygon point other = pointInPolygon point ring := by
  classical
  have answer : pointInPolygon point ring = .ok (decide (InsideRing point (ringEdges ring))) :=
    (pointInPolygon_eq three).mpr (by simp)
  rw [answer]
  exact (pointInPolygon_eq more).mpr (by simp [same])

-----------------------------------------------------------------------------------------
-- Direction of edges
-----------------------------------------------------------------------------------------

omit [Field F] in
theorem straddles_swap (point : GeoPoint F) (edge : (F × F) × (F × F))
    : straddles point edge.swap = straddles point edge := bne_comm

theorem pointOnSegment_swap (point : GeoPoint F) (start stop : F × F)
    : pointOnSegment point stop start = pointOnSegment point start stop := by
  have turned
      : (point.lat - stop.1) * (start.2 - stop.2) - (point.lon - stop.2) * (start.1 - stop.1)
      = -((point.lat - start.1) * (stop.2 - start.2)
        - (point.lon - start.2) * (stop.1 - start.1)) := by ring
  unfold pointOnSegment
  dsimp only
  rw [turned, abs_neg, min_comm stop.1, max_comm stop.1, min_comm stop.2, max_comm stop.2]

/-- The place where an edge passes a latitude, from either end. -/
theorem crossesEast_swap (point : GeoPoint F) (edge : (F × F) × (F × F))
    : crossesEast point edge.swap = crossesEast point edge := by
  unfold crossesEast
  rw [straddles_swap]
  by_cases across : straddles point edge = true
  · have apart : edge.1.1 - edge.2.1 ≠ 0 := sub_ne_zero.mpr (ne_of_straddles across)
    have back : edge.2.1 - edge.1.1 ≠ 0 := sub_ne_zero.mpr (ne_of_straddles across).symm
    have same : (edge.2.2 - edge.1.2) * (point.lat - edge.1.1) / (edge.2.1 - edge.1.1) + edge.1.2
        = (edge.1.2 - edge.2.2) * (point.lat - edge.2.1) / (edge.1.1 - edge.2.1) + edge.2.2 := by
      field_simp
      ring
    simp only [Prod.fst_swap, Prod.snd_swap, same]
  · simp [across]

theorem insideRing_swap (point : GeoPoint F) (edges : List ((F × F) × (F × F)))
    : InsideRing point (edges.map Prod.swap) ↔ InsideRing point edges := by
  have turned : crossesEast point ∘ Prod.swap = crossesEast point :=
    funext (crossesEast_swap point)
  unfold InsideRing
  rw [List.countP_map, turned]
  simp only [List.mem_map, exists_exists_and_eq_and, Prod.fst_swap, Prod.snd_swap,
    pointOnSegment_swap]

-----------------------------------------------------------------------------------------
-- Bounds
-----------------------------------------------------------------------------------------

/-- A point within some distance of bounds, on each side. -/
def WithinBounds (margin : F) (bounds : GeoBounds F) (point : GeoPoint F) : Prop :=
  bounds.minLat - margin ≤ point.lat ∧ point.lat ≤ bounds.maxLat + margin
  ∧ bounds.minLon - margin ≤ point.lon ∧ point.lon ≤ bounds.maxLon + margin

theorem boundsContains_iff {bounds : GeoBounds F} {point : GeoPoint F}
    : boundsContains bounds point = true ↔ WithinBounds 0 bounds point := by
  simp [boundsContains, WithinBounds, and_assoc]

variable [IsStrictOrderedRing F]

/-- Bounds that hold of a vertex. -/
def Bounds (bounds : GeoBounds F) (vertex : F × F) : Prop :=
  bounds.minLat ≤ vertex.1 ∧ vertex.1 ≤ bounds.maxLat
  ∧ bounds.minLon ≤ vertex.2 ∧ vertex.2 ≤ bounds.maxLon

/-- Bounds of a vertex, made wider by another one. -/
def widen (bounds : GeoBounds F) (point : F × F) : GeoBounds F :=
  { minLat := min bounds.minLat point.1
    maxLat := max bounds.maxLat point.1
    minLon := min bounds.minLon point.2
    maxLon := max bounds.maxLon point.2 }

omit [Field F] [IsStrictOrderedRing F] in
theorem Bounds.widen {bounds : GeoBounds F} {vertex : F × F} (holds : Bounds bounds vertex)
    (point : F × F)
    : Bounds (Parser.widen bounds point) vertex :=
  ⟨min_le_of_left_le holds.1, le_max_of_le_left holds.2.1, min_le_of_left_le holds.2.2.1,
    le_max_of_le_left holds.2.2.2⟩

omit [Field F] [IsStrictOrderedRing F] in
/-- The bounds hold of every vertex, by induction on the vertices. -/
theorem bounds_foldl {points : List (F × F)} {bounds : GeoBounds F} {vertex : F × F}
    (member : Bounds bounds vertex ∨ vertex ∈ points)
    : Bounds (points.foldl widen bounds) vertex := by
  induction points generalizing bounds with
  | nil => simpa using member
  | cons point points ih =>
      refine ih ?_
      rcases member with holds | listed
      · exact .inl (holds.widen point)
      · rcases List.mem_cons.mp listed with rfl | later
        · exact .inl ⟨min_le_right _ _, le_max_right _ _, min_le_right _ _, le_max_right _ _⟩
        · exact .inr later

omit [Field F] [IsStrictOrderedRing F] in
theorem exists_polygonBounds {ring : List (F × F)} (nonempty : ring ≠ [])
    : ∃ bounds, polygonBounds ring = some bounds ∧ ∀ vertex ∈ ring, Bounds bounds vertex := by
  cases ring with
  | nil => exact absurd rfl nonempty
  | cons first points =>
      refine ⟨points.foldl widen ⟨first.1, first.1, first.2, first.2⟩, rfl, ?_⟩
      intro vertex member
      refine bounds_foldl ?_
      rcases List.mem_cons.mp member with rfl | later
      · exact .inl ⟨le_rfl, le_rfl, le_rfl, le_rfl⟩
      · exact .inr later

/-- A point on an edge is within a small distance of the bounds. -/
theorem withinBounds_of_onSegment {point : GeoPoint F} {bounds : GeoBounds F} {start stop : F × F}
    (first : Bounds bounds start) (second : Bounds bounds stop)
    (on : pointOnSegment point start stop = true)
    : WithinBounds epsilon bounds point := by
  unfold pointOnSegment at on
  dsimp only at on
  split at on
  · cases on
  · simp only [Bool.and_eq_true, decide_eq_true_eq] at on
    obtain ⟨⟨⟨south, north⟩, west⟩, east⟩ := on
    have low := le_min first.1 second.1
    have high := max_le first.2.1 second.2.1
    have left := le_min first.2.2.1 second.2.2.1
    have right := max_le first.2.2.2 second.2.2.2
    exact ⟨by linarith, by linarith, by linarith, by linarith⟩

omit [Field F] [IsStrictOrderedRing F] in
/-- An edge goes up over the latitude of the point, or down. -/
theorem straddles_cases {point : GeoPoint F} {edge : (F × F) × (F × F)}
    (across : straddles point edge = true)
    : edge.1.1 ≤ point.lat ∧ point.lat < edge.2.1
      ∨ edge.2.1 ≤ point.lat ∧ point.lat < edge.1.1 := by
  unfold straddles at across
  by_cases north : point.lat < edge.2.1 <;> by_cases other : point.lat < edge.1.1 <;>
    simp only [north, other, decide_true, decide_false, bne_self_eq_false, Bool.false_eq_true]
      at across
  · exact .inl ⟨not_lt.mp other, north⟩
  · exact .inr ⟨not_lt.mp north, other⟩

/-- The place where an edge passes the latitude is between its ends. -/
theorem passes_between {point : GeoPoint F} {edge : (F × F) × (F × F)}
    (across : straddles point edge = true) {low high : F}
    (above : low ≤ edge.1.2 ∧ low ≤ edge.2.2) (below : edge.1.2 ≤ high ∧ edge.2.2 ≤ high)
    : low ≤ (edge.1.2 - edge.2.2) * (point.lat - edge.2.1) / (edge.1.1 - edge.2.1) + edge.2.2
      ∧ (edge.1.2 - edge.2.2) * (point.lat - edge.2.1) / (edge.1.1 - edge.2.1) + edge.2.2
        ≤ high := by
  have apart : edge.1.1 - edge.2.1 ≠ 0 := sub_ne_zero.mpr (ne_of_straddles across)
  set part := (point.lat - edge.2.1) / (edge.1.1 - edge.2.1) with ratio
  have place : (edge.1.2 - edge.2.2) * (point.lat - edge.2.1) / (edge.1.1 - edge.2.1) + edge.2.2
      = part * edge.1.2 + (1 - part) * edge.2.2 := by
    rw [ratio]
    field_simp
    ring
  have bounds : 0 ≤ part ∧ part ≤ 1 := by
    rcases straddles_cases across with ⟨south, north⟩ | ⟨south, north⟩
    · exact ⟨div_nonneg_of_nonpos (by linarith) (by linarith),
        (div_le_one_of_neg (by linarith)).mpr (by linarith)⟩
    · exact ⟨div_nonneg (by linarith) (by linarith),
        (div_le_one (by linarith)).mpr (by linarith)⟩
  rw [place]
  constructor <;> nlinarith [bounds.1, bounds.2, above.1, above.2, below.1, below.2]

/-- A point that is inside is within a small distance of the bounds: west of them, every edge over
its latitude is to the east, and their number is even.
-/
theorem withinBounds_of_inside {point : GeoPoint F} {ring : List (F × F)} {bounds : GeoBounds F}
    (holds : ∀ vertex ∈ ring, Bounds bounds vertex)
    (inside : InsideRing point (ringEdges ring))
    : WithinBounds epsilon bounds point := by
  rcases inside with ⟨edge, member, on⟩ | odd
  · obtain ⟨first, second⟩ := mem_of_mem_ringEdges member
    exact withinBounds_of_onSegment (holds _ first) (holds _ second) on
  · have small : (0 : F) ≤ epsilon := by
      unfold epsilon
      positivity
    obtain ⟨edge, member, crossed⟩ := List.countP_pos_iff.mp odd.pos
    simp only [crossesEast, Bool.and_eq_true, decide_eq_true_eq] at crossed
    obtain ⟨first, second⟩ := mem_of_mem_ringEdges member
    have one := holds _ first
    have two := holds _ second
    have place := (passes_between crossed.1 ⟨one.2.2.1, two.2.2.1⟩ ⟨one.2.2.2, two.2.2.2⟩).2
    have lat : bounds.minLat ≤ point.lat ∧ point.lat ≤ bounds.maxLat := by
      rcases straddles_cases crossed.1 with ⟨south, north⟩ | ⟨south, north⟩
      · exact ⟨by linarith [one.1], by linarith [two.2.1]⟩
      · exact ⟨by linarith [two.1], by linarith [one.2.1]⟩
    have west : bounds.minLon ≤ point.lon := by
      by_contra outside
      have all : ∀ edge ∈ ringEdges ring, crossesEast point edge = straddles point edge := by
        intro other member
        obtain ⟨first, second⟩ := mem_of_mem_ringEdges member
        have one := holds _ first
        have two := holds _ second
        by_cases across : straddles point other = true
        · have between :=
            (passes_between across ⟨one.2.2.1, two.2.2.1⟩ ⟨one.2.2.2, two.2.2.2⟩).1
          simp only [crossesEast, across, Bool.true_and, decide_eq_true_eq]
          linarith
        · simp [crossesEast, across]
      rw [List.countP_congr fun edge member => by rw [all edge member]] at odd
      exact Nat.not_odd_iff_even.mpr
        (even_countP_ringEdges (fun vertex : F × F => decide (point.lat < vertex.1)) ring) odd
    exact ⟨by linarith, by linarith, by linarith, by linarith⟩

-----------------------------------------------------------------------------------------
-- Closing a ring
-----------------------------------------------------------------------------------------

/-- An edge without length holds the points near it. -/
theorem pointOnSegment_self (point : GeoPoint F) (vertex : F × F)
    : pointOnSegment point vertex vertex = true
      ↔ |point.lat - vertex.1| ≤ epsilon ∧ |point.lon - vertex.2| ≤ epsilon := by
  have small : ¬ (epsilon : F) < 0 := by
    unfold epsilon
    exact not_lt.mpr (by positivity)
  unfold pointOnSegment
  simp only [sub_self, mul_zero, abs_zero, small, if_false, min_self, max_self, Bool.and_eq_true,
    decide_eq_true_eq, abs_le]
  constructor
  · rintro ⟨⟨⟨south, north⟩, west⟩, east⟩
    exact ⟨⟨by linarith, by linarith⟩, by linarith, by linarith⟩
  · rintro ⟨⟨south, north⟩, west, east⟩
    exact ⟨⟨⟨by linarith, by linarith⟩, by linarith⟩, by linarith⟩

/-- Repeating the first vertex adds an edge without length. -/
theorem insideRing_closed {point : GeoPoint F} {first : F × F} {rest : List (F × F)}
    (far : ¬ (|point.lat - first.1| ≤ epsilon ∧ |point.lon - first.2| ≤ epsilon))
    : InsideRing point (ringEdges (first :: rest ++ [first]))
      ↔ InsideRing point (ringEdges (first :: rest)) := by
  have off : pointOnSegment point first first = false := by
    rw [← Bool.not_eq_true, pointOnSegment_self]
    exact far
  have level : crossesEast point (first, first) = false := by
    simp [crossesEast, straddles]
  have edges : (ringEdges (first :: rest ++ [first])).Perm
      ((first, first) :: ringEdges (first :: rest)) := by
    rw [ringEdges_concat, pathEdges, ringEdges_cons, List.getLast?_cons, List.cons_append]
    exact (List.perm_append_singleton _ _).cons _
  rw [insideRing_perm edges]
  unfold InsideRing
  simp [off, level]

/-- A point in a polygon: no division by zero is made, the answer does not depend on where the
vertices start, on their direction, or on a repeated first vertex that the point is not near to,
and a point inside is at most a small distance out of the bounds.
-/
theorem pointInPolygon_wellBehaved (point : GeoPoint F) {ring : List (F × F)}
    (three : 3 ≤ ring.length)
    : (∃ answer, pointInPolygon point ring = .ok answer)
      ∧ (pointInPolygon point ring = .ok true
          → ∃ bounds,
              polygonBounds ring = some bounds ∧ WithinBounds epsilon bounds point
              ∧ (boundsContains bounds point = false
                  → WithinBounds epsilon bounds point ∧ ¬ WithinBounds 0 bounds point))
      ∧ (∀ count, pointInPolygon point (ring.rotate count) = pointInPolygon point ring)
      ∧ pointInPolygon point ring.reverse = pointInPolygon point ring
      ∧ ∀ first ∈ ring.head?,
          ¬ (|point.lat - first.1| ≤ epsilon ∧ |point.lon - first.2| ≤ epsilon)
          → pointInPolygon point (ring ++ [first]) = pointInPolygon point ring := by
  classical
  refine ⟨⟨_, (pointInPolygon_eq three).mpr (decide_eq_true_iff)⟩, ?_, ?_, ?_, ?_⟩
  · intro inside
    have ringInside := ((pointInPolygon_eq three).mp inside).mp rfl
    have nonempty : ring ≠ [] := by
      intro empty
      simp [empty] at three
    obtain ⟨bounds, found, holds⟩ := exists_polygonBounds nonempty
    have within := withinBounds_of_inside holds ringInside
    refine ⟨bounds, found, within, fun outside => ⟨within, ?_⟩⟩
    rw [← boundsContains_iff, outside]
    exact Bool.false_ne_true
  · intro count
    exact pointInPolygon_congr three (by simpa using three)
      (insideRing_perm (ringEdges_rotate ring count))
  · refine pointInPolygon_congr three (by simpa using three) ?_
    rw [insideRing_perm (ringEdges_reverse ring), insideRing_swap]
  · intro first head far
    obtain ⟨rest, rfl⟩ := List.head?_eq_some_iff.mp head
    exact pointInPolygon_congr three (by simp at three ⊢; omega) (insideRing_closed far)

/-- A point in a triangle. -/
theorem pointInTriangle_wellBehaved
    : pointInPolygon (⟨1, 1⟩ : GeoPoint ℚ) [(0, 0), (0, 4), (4, 0)] = .ok true
      ∧ pointInPolygon (⟨1, 1⟩ : GeoPoint ℚ) [(4, 0), (0, 4), (0, 0)] = .ok true :=
  have behaves := pointInPolygon_wellBehaved (⟨1, 1⟩ : GeoPoint ℚ)
    (show 3 ≤ [((0 : ℚ), (0 : ℚ)), (0, 4), (4, 0)].length by decide)
  ⟨by decide +kernel, behaves.2.2.2.1.trans (by decide +kernel)⟩

end Emwin.Parser
