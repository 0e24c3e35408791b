import Emwin.Library.OrderedMap
import Emwin.Library.Utf8
import Mathlib.Data.Char
import Mathlib.Data.List.Lex

/-! The parsed body of a product, and the places that live filters look at. Coordinates and
measured values are taken from an arbitrary type `F`, since they are only copied and compared.
-/

namespace Emwin.Parser
open Library

/-- A point in time, in nanoseconds since the epoch. -/
abbrev UtcTime := Int

structure VtecCode where
  status : Char
  action : Text
  office : Text
  phenomena : Text
  significance : Char
  etn : UInt32
  beginUtc : Option UtcTime
  endUtc : Option UtcTime
  deriving DecidableEq, Repr

/-- An area of a UGC section, with what the location catalog knows of it. -/
structure UgcArea (F : Type) where
  id : UInt16
  name : Option Text
  lat : Option F
  lon : Option F
  deriving DecidableEq, Repr

/-- Areas by state, in the order of the states. -/
abbrev UgcBucket (F : Type) := OrderedMap Text (List (UgcArea F))

structure UgcSection (F : Type) where
  counties : UgcBucket F
  zones : UgcBucket F
  fireZones : UgcBucket F
  marineZones : UgcBucket F
  expires : UtcTime

inductive HvtecSeverity where
  | none | minor | moderate | major | unknown
  deriving DecidableEq, Repr

inductive HvtecCause where
  | excessiveRainfall | snowmelt | rainAndSnowmelt | damFailure | glacierOutburst | iceJam
  | rainSnowmeltIceJam | upstreamFloodingStormSurge | upstreamFloodingTidalEffects
  | elevatedUpstreamFlowTidalEffects | windTidalEffects | upstreamDamRelease | multipleCauses
  | otherEffects | unknown | other
  deriving DecidableEq, Repr

inductive HvtecRecord where
  | noRecord | nearRecord | notApplicable | unavailable | unknown
  deriving DecidableEq, Repr

/-- What is used of a catalog entry for a river gauge. -/
structure NwslidEntry (F : Type) where
  nwslid : Text
  placeName : Text
  latitude : F
  longitude : F
  deriving DecidableEq, Repr

structure HvtecCode (F : Type) where
  nwslid : Text
  location : Option (NwslidEntry F)
  severity : HvtecSeverity
  cause : HvtecCause
  beginUtc : Option UtcTime
  crest : Option UtcTime
  endUtc : Option UtcTime
  record : HvtecRecord
  deriving DecidableEq, Repr

structure LatLonPolygon (F : Type) where
  points : List (F × F)
  wkt : Text
  deriving DecidableEq, Repr

structure TimeMotLocEntry (F : Type) where
  timeUtc : UtcTime
  directionDegrees : UInt16
  speedKt : UInt16
  points : List (F × F)
  wkt : Text
  deriving DecidableEq, Repr

inductive WindHailKind where
  | legacyWind | legacyHail | windThreat | maxWindGust | hailThreat | maxHailSize
  deriving DecidableEq, Repr

structure WindHailEntry (F : Type) where
  kind : WindHailKind
  numericValue : Option F
  units : Option Text
  comparison : Option Char
  deriving DecidableEq, Repr

structure VtecEventSegment (F : Type) where
  segmentIndex : Nat
  vtec : List VtecCode
  ugcSections : List (UgcSection F)
  hvtec : List (HvtecCode F)
  polygons : List (LatLonPolygon F)
  timeMotLoc : List (TimeMotLocEntry F)
  windHail : List (WindHailEntry F)

structure VtecEventBody (F : Type) where
  segments : List (VtecEventSegment F)

structure GenericBody (F : Type) where
  ugc : Option (List (UgcSection F)) := none
  latlon : Option (List (LatLonPolygon F)) := none
  timeMotLoc : Option (List (TimeMotLocEntry F)) := none
  windHail : Option (List (WindHailEntry F)) := none

inductive ProductBody (F : Type) where
  | vtecEvent (body : VtecEventBody F)
  | generic (body : GenericBody F)

-----------------------------------------------------------------------------------------
-- Places
-----------------------------------------------------------------------------------------

variable {F : Type}

structure GeoPoint (F : Type) where
  lat : F
  lon : F
  deriving DecidableEq, Repr

structure GeoBounds (F : Type) where
  minLat : F
  maxLat : F
  minLon : F
  maxLon : F
  deriving DecidableEq, Repr

structure ParsedPolygon (F : Type) where
  points : List (F × F)
  bounds : Option (GeoBounds F)
  deriving DecidableEq, Repr

def polygonBounds [Min F] [Max F] : List (F × F) → Option (GeoBounds F)
  | [] => none
  | (firstLat, firstLon) :: points =>
      some (points.foldl
        (fun bounds point =>
          { minLat := min bounds.minLat point.1
            maxLat := max bounds.maxLat point.1
            minLon := min bounds.minLon point.2
            maxLon := max bounds.maxLon point.2 })
        ⟨firstLat, firstLat, firstLon, firstLon⟩)

def UgcArea.point? (area : UgcArea F) : Option (GeoPoint F) :=
  match area.lat, area.lon with
  | some lat, some lon => some ⟨lat, lon⟩
  | _, _ => none

/-- The values of a bucket, one state after the other. -/
def bucketAreas (bucket : UgcBucket F) : List (UgcArea F) := bucket.entries.flatMap (·.2)

def sectionPoints (ugcSection : UgcSection F) : List (GeoPoint F) :=
  (bucketAreas ugcSection.counties ++ bucketAreas ugcSection.zones
    ++ bucketAreas ugcSection.fireZones
    ++ bucketAreas ugcSection.marineZones).filterMap UgcArea.point?

def entryPoints (entry : TimeMotLocEntry F) : List (GeoPoint F) :=
  entry.points.map fun (lat, lon) => ⟨lat, lon⟩

def HvtecCode.point? (code : HvtecCode F) : Option (GeoPoint F) :=
  code.location.map fun location => ⟨location.latitude, location.longitude⟩

def genericBodyIterLocationPoints (body : GenericBody F) : List (GeoPoint F) :=
  body.timeMotLoc.toList.flatMap (·.flatMap entryPoints)
  ++ body.ugc.toList.flatMap (·.flatMap sectionPoints)

def vtecEventBodyIterLocationPoints (body : VtecEventBody F) : List (GeoPoint F) :=
  body.segments.flatMap fun segment =>
    segment.timeMotLoc.flatMap entryPoints ++ segment.ugcSections.flatMap sectionPoints
    ++ segment.hvtec.filterMap HvtecCode.point?

/-- The polygons that `iter_polygons` goes through. -/
def bodyPolygons : ProductBody F → List (LatLonPolygon F)
  | .vtecEvent body => body.segments.flatMap (·.polygons)
  | .generic body => body.latlon.toList.flatten

namespace ProductBody

def iterLocationPoints : ProductBody F → List (GeoPoint F)
  | .vtecEvent body => vtecEventBodyIterLocationPoints body
  | .generic body => genericBodyIterLocationPoints body

def iterPolygons [Min F] [Max F] (body : ProductBody F) : List (ParsedPolygon F) :=
  (bodyPolygons body).map fun polygon => ⟨polygon.points, polygonBounds polygon.points⟩

end ProductBody

end Emwin.Parser
