import Emwin.Library.Segments
import Emwin.Parser.PackedPairs

/-! The polygons that are emitted as rings of a geometry database. -/

namespace Emwin.Parser
open Library

-----------------------------------------------------------------------------------------
-- Rings
-----------------------------------------------------------------------------------------

theorem samePoint_iff (left right : ℚ × ℚ) : samePoint left right = true ↔ left = right := by
  rw [samePoint, Bool.and_eq_true, Prod.ext_iff]
  exact and_congr decide_eq_true_iff decide_eq_true_iff

/-- Closed points have the first one at the end. -/
theorem head?_closeRing (points : List (ℚ × ℚ))
    : (closeRing points).head? = (closeRing points).getLast? := by
  cases points with
  | nil => rfl
  | cons first rest =>
      rw [closeRing]
      split
      · next same =>
          rw [samePoint_iff] at same
          rw [List.getLast?_cons, ← same]
          rfl
      · rw [List.getLast?_append_of_ne_nil _ (by simp)]
        rfl

/-- Points stay as they are if they are closed. -/
theorem length_closeRing (points : List (ℚ × ℚ))
    : (closeRing points).length
      = if points.head? = points.getLast? then points.length else points.length + 1 := by
  cases points with
  | nil => rfl
  | cons first rest =>
      have closed : samePoint first (rest.getLast?.getD first) = true
          ↔ (first :: rest).head? = (first :: rest).getLast? := by
        rw [samePoint_iff, List.getLast?_cons, List.head?_cons, Option.some_inj]
      rw [closeRing, apply_ite List.length]
      simp only [closed]
      congr 1
      simp

/-- The points are swapped before the test for a crossing, which turns every side around. -/
theorem orientation_pointXy (first second third : ℚ × ℚ)
    : orientation (pointXy first) (pointXy second) (pointXy third)
      = -orient first second third := by
  show (second.1 - first.1) * (third.2 - second.2) - (second.2 - first.2) * (third.1 - second.1)
    = -orient first second third
  rw [orient]
  ring

theorem segmentsIntersect_iff (a b c d : ℚ × ℚ)
    : segmentsIntersect (pointXy a) (pointXy b) (pointXy c) (pointXy d) = true
      ↔ Crosses a b c d := by
  rw [segmentsIntersect, orientation_pointXy, orientation_pointXy, orientation_pointXy,
    orientation_pointXy]
  show (decide (-orient a b c * -orient a b d < 0) && decide (-orient c d a * -orient c d b < 0))
      = true ↔ _
  rw [neg_mul_neg, neg_mul_neg, Bool.and_eq_true, decide_eq_true_iff, decide_eq_true_iff]
  rfl

theorem mem_sides_iff {points : List (ℚ × ℚ)} {ends : (ℚ × ℚ) × (ℚ × ℚ)} {index : Nat}
    : (ends, index) ∈ sides points
      ↔ index < points.length - 1
        ∧ ends = (pointXy (corner points index), pointXy (corner points (index + 1))) := by
  rw [sides, List.mem_zipIdx_iff_getElem?, List.getElem?_zip_eq_some]
  by_cases inside : index < points.length - 1
  · have here (place : Nat) (fits : place < points.length)
        : points[place]? = some (corner points place) := by
      simp [corner, fits]
    simp only [List.getElem?_map, List.getElem?_tail, here index (by omega),
      here (index + 1) (by omega), Option.map_some, Option.some_inj, inside, true_and,
      Prod.ext_iff (y := (pointXy (corner points index), pointXy (corner points (index + 1))))]
    exact and_congr eq_comm eq_comm
  · simp [inside]

/-- The search for a crossing goes over all sides that are no neighbours. -/
theorem hasSelfIntersection_iff (points : List (ℚ × ℚ))
    : hasSelfIntersection points = true ↔ SidesCross points := by
  have found : hasSelfIntersection points = true
      ↔ ∃ first second, first < points.length - 1 ∧ second < points.length - 1
        ∧ (first < second
          ∧ ¬ (second = first + 1 ∨ first = 0 ∧ second = points.length - 1 - 1))
        ∧ Crosses (corner points first) (corner points (first + 1)) (corner points second)
            (corner points (second + 1)) := by
    rw [hasSelfIntersection, List.any_eq_true]
    constructor
    · rintro ⟨⟨firstEnds, first⟩, firstSide, more⟩
      obtain ⟨⟨secondEnds, second⟩, secondSide, test⟩ := List.any_eq_true.mp more
      obtain ⟨inFirst, rfl⟩ := mem_sides_iff.mp firstSide
      obtain ⟨inSecond, rfl⟩ := mem_sides_iff.mp secondSide
      simp only [Bool.and_eq_true, Bool.not_eq_true', Bool.or_eq_false_iff,
        Bool.and_eq_false_iff, decide_eq_true_iff, decide_eq_false_iff_not] at test
      exact ⟨first, second, inFirst, inSecond, ⟨test.1.1, by omega⟩,
        (segmentsIntersect_iff _ _ _ _).mp test.2⟩
    · rintro ⟨first, second, inFirst, inSecond, ⟨order, free⟩, crosses⟩
      refine ⟨⟨_, first⟩, mem_sides_iff.mpr ⟨inFirst, rfl⟩, List.any_eq_true.mpr
        ⟨⟨_, second⟩, mem_sides_iff.mpr ⟨inSecond, rfl⟩, ?_⟩⟩
      simp only [Bool.and_eq_true, Bool.not_eq_true', Bool.or_eq_false_iff,
        Bool.and_eq_false_iff, decide_eq_true_iff, decide_eq_false_iff_not]
      exact ⟨⟨order, by omega⟩, (segmentsIntersect_iff _ _ _ _).mpr crosses⟩
  have apart {first second : Nat} (order : first < second) (inside : second < points.length - 1)
      : ¬ (second = first + 1 ∨ first = 0 ∧ second = points.length - 1 - 1)
        ↔ SidesApart (points.length - 1) first second := by
    rw [SidesApart, succ_mod (by omega), succ_mod inside]
    split <;> split <;> omega
  rw [found]
  constructor
  · rintro ⟨first, second, inFirst, inSecond, ⟨order, free⟩, crosses⟩
    exact ⟨first, second, inFirst, inSecond, (apart order inSecond).mp free, crosses⟩
  · rintro ⟨first, second, inFirst, inSecond, free, crosses⟩
    rcases Nat.lt_or_gt_of_ne free.1 with order | order
    · exact ⟨first, second, inFirst, inSecond, ⟨order, (apart order inSecond).mpr free⟩, crosses⟩
    · exact ⟨second, first, inSecond, inFirst, ⟨order, (apart order inFirst).mpr free.symm⟩,
        crosses.2, crosses.1⟩

-----------------------------------------------------------------------------------------
-- Written rings
-----------------------------------------------------------------------------------------

/-- A closed ring of at least four pairs of numbers, between the words of a polygon. -/
def IsPolygonWkt (text : Text) : Prop :=
  ∃ pairs : List Text,
    text = "POLYGON((".toList ++ ", ".toList.intercalate pairs ++ "))".toList
    ∧ 4 ≤ pairs.length ∧ pairs.head? = pairs.getLast?
    ∧ ∀ pair ∈ pairs, ∃ x y, pair = x ++ ' ' :: y ∧ IsFixedPoint 6 x ∧ IsFixedPoint 6 y

theorem formatPolygonWkt_isPolygonWkt {points : List (ℚ × ℚ)} (four : 4 ≤ points.length)
    (closed : points.head? = points.getLast?)
    : IsPolygonWkt (formatPolygonWkt points) := by
  refine ⟨_, rfl, by rwa [List.length_map], by rw [List.head?_map, List.getLast?_map, closed], ?_⟩
  intro pair member
  obtain ⟨⟨lat, lon⟩, -, rfl⟩ := List.mem_map.mp member
  refine ⟨formatFixed 6 lon, formatFixed 6 lat, ?_, formatFixed_isFixedPoint (by decide) lon,
    formatFixed_isFixedPoint (by decide) lat⟩
  show formatFixed 6 lon ++ [' '] ++ formatFixed 6 lat = _
  rw [List.append_assoc]
  rfl

-----------------------------------------------------------------------------------------
-- Blocks
-----------------------------------------------------------------------------------------

/-- The points that the coordinates of a candidate are read as. -/
def ReadAs (candidate : LatLonCandidate) (points : List (ℚ × ℚ)) : Prop :=
  ∃ marker rawCoords coords issues,
    splitWhitespace (trim candidate.raw) = marker :: rawCoords
    ∧ eqIgnoreAsciiCase marker latlonMarker = true
    ∧ normalizeLatlonTokens (F := ℚ) rawCoords = .ok (some (coords, issues))
    ∧ parsePoints coords (trim candidate.raw) = .ok (.ok points)

/-- Some block of the text is read as these points. -/
def BlockReadAs (text : Text) (points : List (ℚ × ℚ)) : Prop :=
  ∃ candidates, findLatlonCandidates text = .ok candidates
    ∧ ∃ candidate ∈ candidates, ReadAs candidate points

/-- The polygon of a candidate is the ring of its points, where that is accepted. -/
theorem parseLatlonCandidate_polygon_iff {candidate : LatLonCandidate}
    {polygon : LatLonPolygon ℚ}
    : (∃ issues, parseLatlonCandidate candidate = .ok (some polygon, issues))
      ↔ ∃ points, ReadAs candidate points
        ∧ validatePolygon points (trim candidate.raw) = .ok polygon.points
        ∧ polygon.wkt = formatPolygonWkt polygon.points := by
  constructor
  · rintro ⟨issues, parsed⟩
    unfold parseLatlonCandidate at parsed
    dsimp only at parsed
    split at parsed
    · cases parsed
    · next marker rawCoords words =>
        split at parsed
        · cases parsed
        · next marked =>
            obtain ⟨normalized, found, later⟩ := exceptBind_ok_iff.mp parsed
            split at later
            · cases later
            · next coords notes =>
                obtain ⟨outcome, read, last⟩ := exceptBind_ok_iff.mp later
                split at last
                · cases last
                · next points =>
                    split at last
                    · cases last
                    · next ring closed =>
                        obtain ⟨same, -⟩ := Prod.mk.inj (Except.ok.inj last)
                        obtain rfl := Option.some.inj same
                        exact ⟨points, ⟨marker, rawCoords, coords, notes, words,
                          by simpa using marked, found, read⟩, closed, rfl⟩
  · rintro ⟨points, ⟨marker, rawCoords, coords, issues, words, marked, found, read⟩, closed,
      written⟩
    refine ⟨issues, ?_⟩
    rw [parseLatlonCandidate, words]
    simp only [marked, Bool.not_true, Bool.false_eq_true, if_false, found, ok_bind, read, closed]
    rw [← written]
    rfl

/-- The polygons of a text, from its blocks. -/
theorem mem_polygons_iff {text : Text} {polygons : List (LatLonPolygon ℚ)}
    {issues : List ProductParseIssue}
    (parsed : parseLatlonPolygonsWithIssues text = .ok (polygons, issues))
    {polygon : LatLonPolygon ℚ}
    : polygon ∈ polygons
      ↔ ∃ candidates, findLatlonCandidates text = .ok candidates
        ∧ ∃ candidate ∈ candidates, ∃ points, ReadAs candidate points
          ∧ validatePolygon points (trim candidate.raw) = .ok polygon.points
          ∧ polygon.wkt = formatPolygonWkt polygon.points := by
  rw [parseLatlonPolygonsWithIssues] at parsed
  obtain ⟨candidates, found, later⟩ := exceptBind_ok_iff.mp parsed
  obtain ⟨results, all, same⟩ := exceptBind_ok_iff.mp later
  obtain ⟨rfl, -⟩ := Prod.mk.inj (Except.ok.inj same)
  have only (other : List LatLonCandidate) : findLatlonCandidates text = .ok other
      ↔ other = candidates := by
    rw [found, Except.ok.injEq, eq_comm]
  simp only [only, exists_eq_left, List.mem_filterMap, ← parseLatlonCandidate_polygon_iff]
  constructor
  · rintro ⟨⟨_, issues⟩, member, rfl⟩
    obtain ⟨candidate, listed, parsed⟩ := (mem_of_mapM_ok all).mp member
    exact ⟨candidate, listed, issues, parsed⟩
  · rintro ⟨candidate, listed, issues, parsed⟩
    exact ⟨(some polygon, issues), (mem_of_mapM_ok all).mpr ⟨candidate, listed, parsed⟩, rfl⟩

-----------------------------------------------------------------------------------------
-- Emitted rings
-----------------------------------------------------------------------------------------

/-- Points that are not three with the last one equal to the first; and no corner of their ring
is on a side that it is not an end of, unless sides cross.
-/
def ClosesWell (points : List (ℚ × ℚ)) : Prop :=
  ¬ (points.length = 3 ∧ points.head? = points.getLast?)
  ∧ (4 < (closeRing points).length → hasSelfIntersection (closeRing points) = false
    → ¬ CornerOnSide (closeRing points))

/-- A triangle has no two sides that are not neighbours. -/
theorem isSimpleRing_triangle {line : List (ℚ × ℚ)} (four : line.length = 4)
    (closed : line.head? = line.getLast?)
    : IsSimpleRing line where
  four := four.ge
  closed := closed
  apart first second inFirst inSecond free := by
    rw [SidesApart, succ_mod inFirst, succ_mod inSecond, four] at free
    rw [four] at inFirst inSecond
    split at free <;> split at free <;> omega

/-- A ring that is emitted is simple if its points close well. -/
theorem isSimpleRing_iff_closesWell {points ring : List (ℚ × ℚ)} {raw : Text}
    (valid : validatePolygon points raw = .ok ring)
    : IsSimpleRing ring ↔ ClosesWell points := by
  rw [validatePolygon] at valid
  dsimp only at valid
  split at valid
  · cases valid
  next many =>
  split at valid
  · cases valid
  next accepted =>
  obtain rfl := Except.ok.inj valid
  have closed := head?_closeRing points
  have length := length_closeRing points
  rw [ClosesWell]
  by_cases five : 4 < (closeRing points).length
  · have uncrossed : hasSelfIntersection (closeRing points) = false := by
      simpa [five] using accepted
    have apart := apart_iff_of_uncrossed closed five
      (by rw [← hasSelfIntersection_iff, uncrossed]; exact Bool.false_ne_true)
    have more : ¬ (points.length = 3 ∧ points.head? = points.getLast?) := by
      rintro ⟨three, same⟩
      rw [if_pos same] at length
      omega
    simp only [five, uncrossed, more, not_false_eq_true, true_and, true_imp_iff, ← apart]
    exact ⟨fun ring => ring.apart, fun free => ⟨five.le, closed, free⟩⟩
  · simp only [five, false_imp_iff, and_true]
    constructor
    · rintro ring ⟨three, same⟩
      rw [if_pos same, three] at length
      have four := ring.four
      omega
    · intro more
      refine isSimpleRing_triangle ?_ closed
      split at length
      · next same =>
          have : points.length ≠ 3 := fun three => more ⟨three, same⟩
          omega
      · omega

theorem closesWell_of_rejected {points : List (ℚ × ℚ)} {raw : Text} {issue : ProductParseIssue}
    (rejected : validatePolygon points raw = .error issue)
    : ClosesWell points := by
  have length := length_closeRing points
  rw [validatePolygon] at rejected
  dsimp only at rejected
  split at rejected
  · next few =>
      refine ⟨fun three => by omega, fun five => ?_⟩
      split at length <;> omega
  split at rejected
  · next crossing =>
      refine ⟨?_, fun _ uncrossed => ?_⟩
      · rintro ⟨three, same⟩
        rw [if_pos same] at length
        omega
      · rw [crossing.2] at uncrossed
        cases uncrossed
  · cases rejected

/-- All polygons of a text are simple rings, and written as such, if the points of all of its
blocks close well or are rejected.
-/
theorem polygons_simple_iff (text : Text)
    : ∃ polygons issues,
        parseLatlonPolygonsWithIssues (F := ℚ) text = .ok (polygons, issues)
        ∧ ((∀ polygon ∈ polygons, IsSimpleRing polygon.points ∧ IsPolygonWkt polygon.wkt)
          ↔ ∀ points, BlockReadAs text points → ClosesWell points) := by
  obtain ⟨⟨polygons, issues⟩, parsed⟩ := @returns_parseLatlonPolygonsWithIssues ℚ _ text
  refine ⟨polygons, issues, parsed, ?_⟩
  constructor
  · rintro all points ⟨candidates, found, candidate, listed, read⟩
    cases valid : validatePolygon points (trim candidate.raw) with
    | ok ring =>
        have emitted : (⟨ring, formatPolygonWkt ring⟩ : LatLonPolygon ℚ) ∈ polygons :=
          (mem_polygons_iff parsed).mpr
            ⟨candidates, found, candidate, listed, points, read, valid, rfl⟩
        exact (isSimpleRing_iff_closesWell valid).mp (all _ emitted).1
    | error issue => exact closesWell_of_rejected valid
  · intro well polygon emitted
    obtain ⟨candidates, found, candidate, listed, points, read, valid, written⟩ :=
      (mem_polygons_iff parsed).mp emitted
    have ring := (isSimpleRing_iff_closesWell valid).mpr
      (well points ⟨candidates, found, candidate, listed, read⟩)
    refine ⟨ring, ?_⟩
    rw [written]
    exact formatPolygonWkt_isPolygonWkt ring.four ring.closed

/-- Three pairs with the last one equal to the first. -/
def foldedPairs : List Text := ["40009500".toList, "41009500".toList, "40009500".toList]

/-- The ring of three points has no area, and is emitted. -/
theorem foldedPairs_emitted
    : ∃ polygon,
        parseLatlonPolygonsWithIssues (F := ℚ) (joinWords (latlonMarker :: foldedPairs))
          = .ok ([polygon], [])
        ∧ polygon.points.length = 3 ∧ ¬ IsSimpleRing polygon.points := by
  have closed
      : (foldedPairs.map shiftedPoint).head? = (foldedPairs.map shiftedPoint).getLast? := rfl
  have three : (closeRing (foldedPairs.map shiftedPoint)).length = 3 := by
    rw [length_closeRing, if_pos closed]
    rfl
  refine ⟨_, parseLatlonPolygons_triangle (by decide) rfl, three, fun ring => ?_⟩
  have four := ring.four
  rw [three] at four
  omega

end Emwin.Parser
