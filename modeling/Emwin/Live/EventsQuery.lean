import Emwin.Library.Text
import Mathlib.Data.Rat.Defs
import Mathlib.Algebra.Order.Ring.Rat

/-! The query parameters of `GET /events` and the checks that they pass or fail. -/

namespace Emwin.Live
open Library

/-- An `f64` as a query gives it: a number, an infinity or no number at all. -/
inductive F64 where
  | nan
  | infinite (negative : Bool)
  | finite (value : ℚ)
  deriving DecidableEq, Repr

namespace F64

def isFinite : F64 → Bool
  | .finite _ => true
  | .nan | .infinite _ => false

/-- `RangeInclusive::contains` for a range with finite bounds. -/
def within (low high : ℚ) : F64 → Bool
  | .finite value => low ≤ value ∧ value ≤ high
  | .nan | .infinite _ => false

/-- Comparison with zero; no number is not smaller than anything. -/
def nonPositive : F64 → Bool
  | .finite value => value ≤ 0
  | .infinite negative => negative
  | .nan => false

end F64

/-- The parameters that a request can get wrong. All others compile to a filter whatever
their value, and stand in one field.
-/
structure EventsQuery (T : Type) where
  others : T
  lat : Option F64 := none
  lon : Option F64 := none
  distanceMiles : Option F64 := none
  minSize : Option UInt64 := none
  maxSize : Option UInt64 := none
  deriving DecidableEq, Repr

structure GeoPoint where
  lat : F64
  lon : F64
  deriving DecidableEq, Repr

structure LocationFilter where
  center : Option GeoPoint
  distanceMiles : Option F64
  deriving DecidableEq, Repr

/-- What the query compiles to. -/
structure EventFilter (T : Type) where
  others : T
  minSize : Option UInt64
  maxSize : Option UInt64
  location : LocationFilter
  deriving DecidableEq, Repr

variable {T : Type}

def defaultDistanceMiles : F64 := .finite 5

/-- `min_size.zip(max_size).is_some_and(|(min, max)| min > max)`. -/
def EventsQuery.sizesCross (query : EventsQuery T) : Bool :=
  match query.minSize, query.maxSize with
  | some min, some max => min > max
  | _, _ => false

def LocationFilter.center? (lat lon : Option F64) : Except Text (Option GeoPoint) :=
  if lat.isSome ≠ lon.isSome then .error "lat and lon must be provided together".toList
  else
    match lat, lon with
    | some lat, some lon =>
        if !lat.isFinite || !lat.within (-90) 90 then
          .error "lat must be a finite value between -90 and 90".toList
        else if !lon.isFinite || !lon.within (-180) 180 then
          .error "lon must be a finite value between -180 and 180".toList
        else .ok (some ⟨lat, lon⟩)
    | _, _ => .ok none

def LocationFilter.distance? (center : Option GeoPoint) : Option F64 → Except Text (Option F64)
  | some distance =>
      if center.isNone then .error "distance_miles requires both lat and lon".toList
      else if !distance.isFinite || distance.nonPositive then
        .error "distance_miles must be a finite value greater than 0".toList
      else .ok (some distance)
  | none => .ok (if center.isSome then some defaultDistanceMiles else none)

def LocationFilter.tryFromInput (query : EventsQuery T) : Except Text LocationFilter := do
  let center ← center? query.lat query.lon
  let distanceMiles ← distance? center query.distanceMiles
  .ok { center, distanceMiles }

def sizesMessage : Text := "min_size must be less than or equal to max_size".toList

/-- `EventFilter::try_from_query`: the location is checked before the sizes. -/
def EventFilter.tryFromQuery (query : EventsQuery T) : Except Text (EventFilter T) := do
  let location ← LocationFilter.tryFromInput query
  if query.sizesCross then .error sizesMessage
  else
    .ok { others := query.others, minSize := query.minSize, maxSize := query.maxSize, location }

/-- The checks of the handler: the sizes once more, and before the filter. -/
def EventsQuery.compile (query : EventsQuery T) : Except Text (EventFilter T) :=
  if query.sizesCross then .error sizesMessage
  else EventFilter.tryFromQuery query

-----------------------------------------------------------------------------------------
-- Which queries pass
-----------------------------------------------------------------------------------------

/-- A center is a pair of finite coordinates in range, or is left out. -/
def ValidCenter : Option F64 → Option F64 → Prop
  | some lat, some lon =>
      (∃ degrees, lat = .finite degrees ∧ -90 ≤ degrees ∧ degrees ≤ 90)
      ∧ ∃ degrees, lon = .finite degrees ∧ -180 ≤ degrees ∧ degrees ≤ 180
  | none, none => True
  | _, _ => False

/-- A query that no check rejects. -/
structure EventsQuery.Valid (query : EventsQuery T) : Prop where
  sizes : ∀ min max, query.minSize = some min → query.maxSize = some max → min ≤ max
  center : ValidCenter query.lat query.lon
  distance
    : ∀ distance,
        query.distanceMiles = some distance
        → query.lat.isSome = true ∧ ∃ miles, distance = .finite miles ∧ 0 < miles

theorem sizesCross_eq_false_iff {query : EventsQuery T}
    : query.sizesCross = false
      ↔ ∀ min max, query.minSize = some min → query.maxSize = some max → min ≤ max := by
  unfold EventsQuery.sizesCross
  cases query.minSize <;> cases query.maxSize <;> simp

theorem F64.finite_within_iff {value : F64} {low high : ℚ}
    : (!value.isFinite || !value.within low high) = false
      ↔ ∃ number, value = .finite number ∧ low ≤ number ∧ number ≤ high := by
  cases value <;> simp [F64.isFinite, F64.within]

theorem F64.finite_positive_iff {value : F64}
    : (!value.isFinite || value.nonPositive) = false
      ↔ ∃ number, value = .finite number ∧ 0 < number := by
  cases value <;> simp [F64.isFinite, F64.nonPositive]

theorem center?_ok_iff {lat lon : Option F64} {center : Option GeoPoint}
    : LocationFilter.center? lat lon = .ok center
      ↔ ValidCenter lat lon
        ∧ center = lat.bind fun lat => lon.map fun lon => ⟨lat, lon⟩ := by
  unfold LocationFilter.center? ValidCenter
  rcases lat with _ | lat <;> rcases lon with _ | lon
  · simp [eq_comm]
  · simp
  · simp
  · simp only [← F64.finite_within_iff]
    cases first : (!lat.isFinite || !lat.within (-90) 90) <;>
      cases second : (!lon.isFinite || !lon.within (-180) 180) <;>
        simp [eq_comm]

theorem distance?_ok_iff {center : Option GeoPoint} {distance : Option F64}
    : (∃ miles, LocationFilter.distance? center distance = .ok miles)
      ↔ ∀ given,
          distance = some given
          → center.isSome = true ∧ ∃ miles, given = .finite miles ∧ 0 < miles := by
  unfold LocationFilter.distance?
  rcases distance with _ | given
  · simp
  · simp only [Option.some.injEq, forall_eq', ← F64.finite_positive_iff]
    cases center <;> cases (!given.isFinite || given.nonPositive) <;> simp

theorem isSome_of_validCenter {lat lon : Option F64} (valid : ValidCenter lat lon)
    : (lat.bind fun lat => lon.map fun lon => (⟨lat, lon⟩ : GeoPoint)).isSome = lat.isSome := by
  rcases lat with _ | lat <;> rcases lon with _ | lon <;> simp_all [ValidCenter]

/-- The checks of the handler pass exactly the valid queries. -/
theorem compile_ok_iff {query : EventsQuery T}
    : (∃ filter, query.compile = .ok filter) ↔ query.Valid := by
  constructor
  · rintro ⟨filter, ok⟩
    unfold EventsQuery.compile at ok
    split_ifs at ok with cross
    obtain ⟨location, found, -⟩ := exceptBind_ok_iff.mp ok
    obtain ⟨center, valid, found⟩ := exceptBind_ok_iff.mp found
    obtain ⟨distance, near, -⟩ := exceptBind_ok_iff.mp found
    obtain ⟨coordinates, rfl⟩ := center?_ok_iff.mp valid
    refine ⟨sizesCross_eq_false_iff.mp (by simpa using cross), coordinates, ?_⟩
    intro given asked
    rw [← isSome_of_validCenter coordinates]
    exact distance?_ok_iff.mp ⟨distance, near⟩ given asked
  · intro valid
    have uncrossed := sizesCross_eq_false_iff.mpr valid.sizes
    have center := center?_ok_iff.mpr ⟨valid.center, rfl⟩
    obtain ⟨miles, near⟩ := distance?_ok_iff.mpr fun given asked => by
      rw [isSome_of_validCenter valid.center]
      exact valid.distance given asked
    obtain ⟨location, found⟩ : ∃ location, LocationFilter.tryFromInput query = .ok location :=
      ⟨⟨_, miles⟩, exceptBind_ok_iff.mpr ⟨_, center, exceptBind_ok_iff.mpr ⟨_, near, rfl⟩⟩⟩
    have passed : query.compile = EventFilter.tryFromQuery query := by
      simp [EventsQuery.compile, uncrossed]
    rw [passed]
    refine ⟨⟨query.others, query.minSize, query.maxSize, location⟩,
      exceptBind_ok_iff.mpr ⟨location, found, ?_⟩⟩
    rw [uncrossed]
    rfl

end Emwin.Live
