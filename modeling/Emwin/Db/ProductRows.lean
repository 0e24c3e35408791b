import Emwin.Db.Incidents
import Emwin.Library.Text
import Emwin.Parser.Projection

/-! The rows that are prepared for a product. The columns that only copy what the summary says of
the header, the office and the artifact are left out.
-/

namespace Emwin.Db.Rows
open Library

variable {F : Type}

-----------------------------------------------------------------------------------------
-- Rows
-----------------------------------------------------------------------------------------

structure ProductUgcAreaRow (F : Type) where
  segmentIndex : Option Int
  sectionIndex : Int
  areaKind : Text
  state : Text
  ugcCode : Text
  name : Option Text
  expiresUtc : Timestamp
  latitude : Option F
  longitude : Option F
  deriving DecidableEq, Repr

structure ProductHvtecRow (F : Type) where
  segmentIndex : Option Int
  hvtecIndex : Int
  nwslid : Text
  locationName : Option Text
  severity : Text
  cause : Text
  record : Text
  beginUtc : Option Timestamp
  crestUtc : Option Timestamp
  endUtc : Option Timestamp
  latitude : Option F
  longitude : Option F
  deriving DecidableEq, Repr

structure ProductTimeMotLocRow where
  segmentIndex : Option Int
  entryIndex : Int
  timeUtc : Timestamp
  directionDegrees : Int
  speedKt : Int
  pathWkt : Text
  deriving DecidableEq, Repr

structure ProductPolygonRow where
  segmentIndex : Option Int
  polygonIndex : Int
  polygonWkt : Text
  deriving DecidableEq, Repr

structure ProductWindHailRow (F : Type) where
  segmentIndex : Option Int
  entryIndex : Int
  kind : Text
  numericValue : Option F
  units : Option Text
  comparison : Option Text
  deriving DecidableEq, Repr

structure ProductSearchPointRow (F : Type) where
  sourceKind : Text
  sourceIndex : Int
  latitude : F
  longitude : F
  deriving DecidableEq, Repr

/-- The rows of a body, in the order in which they are pushed. -/
structure BodyRows (F : Type) where
  vtec : List ProductVtecRow := []
  ugcAreas : List (ProductUgcAreaRow F) := []
  hvtec : List (ProductHvtecRow F) := []
  timeMotLoc : List ProductTimeMotLocRow := []
  polygons : List ProductPolygonRow := []
  windHail : List (ProductWindHailRow F) := []
  searchPoints : List (ProductSearchPointRow F) := []
  deriving DecidableEq, Repr

def BodyRows.append (left right : BodyRows F) : BodyRows F where
  vtec := left.vtec ++ right.vtec
  ugcAreas := left.ugcAreas ++ right.ugcAreas
  hvtec := left.hvtec ++ right.hvtec
  timeMotLoc := left.timeMotLoc ++ right.timeMotLoc
  polygons := left.polygons ++ right.polygons
  windHail := left.windHail ++ right.windHail
  searchPoints := left.searchPoints ++ right.searchPoints

-----------------------------------------------------------------------------------------
-- Labels
-----------------------------------------------------------------------------------------

def severityLabel : Parser.HvtecSeverity → Text
  | .none => "None".toList
  | .minor => "Minor".toList
  | .moderate => "Moderate".toList
  | .major => "Major".toList
  | .unknown => "Unknown".toList

def causeLabel : Parser.HvtecCause → Text
  | .excessiveRainfall => "ExcessiveRainfall".toList
  | .snowmelt => "Snowmelt".toList
  | .rainAndSnowmelt => "RainAndSnowmelt".toList
  | .damFailure => "DamFailure".toList
  | .glacierOutburst => "GlacierOutburst".toList
  | .iceJam => "IceJam".toList
  | .rainSnowmeltIceJam => "RainSnowmeltIceJam".toList
  | .upstreamFloodingStormSurge => "UpstreamFloodingStormSurge".toList
  | .upstreamFloodingTidalEffects => "UpstreamFloodingTidalEffects".toList
  | .elevatedUpstreamFlowTidalEffects => "ElevatedUpstreamFlowTidalEffects".toList
  | .windTidalEffects => "WindTidalEffects".toList
  | .upstreamDamRelease => "UpstreamDamRelease".toList
  | .multipleCauses => "MultipleCauses".toList
  | .otherEffects => "OtherEffects".toList
  | .unknown => "Unknown".toList
  | .other => "Other".toList

def recordLabel : Parser.HvtecRecord → Text
  | .noRecord => "NoRecord".toList
  | .nearRecord => "NearRecord".toList
  | .notApplicable => "NotApplicable".toList
  | .unavailable => "Unavailable".toList
  | .unknown => "Unknown".toList

def kindLabel : Parser.WindHailKind → Text
  | .legacyWind => "legacy_wind".toList
  | .legacyHail => "legacy_hail".toList
  | .windThreat => "wind_threat".toList
  | .maxWindGust => "max_wind_gust".toList
  | .hailThreat => "hail_threat".toList
  | .maxHailSize => "max_hail_size".toList

-----------------------------------------------------------------------------------------
-- Collecting
-----------------------------------------------------------------------------------------

/-- One result for each item, with its index as `i32`. -/
def indexed {α β : Type} (field : String) (row : Int → α → β) (items : List α)
    : PersistResult (List β) :=
  items.zipIdx.mapM fun (item, index) => do
    let index ← usizeToI32 index field.toList
    .ok (row index item)

/-- A class of areas, as `UgcBucketSpec`. -/
structure UgcBucketSpec (F : Type) where
  areaKind : Text
  bucket : Parser.UgcBucket F
  codePrefix : Char

def ugcBucketSpecs (ugcSection : Parser.UgcSection F) : List (UgcBucketSpec F) :=
  [⟨"county".toList, ugcSection.counties, 'C'⟩, ⟨"zone".toList, ugcSection.zones, 'Z'⟩,
   ⟨"fire_zone".toList, ugcSection.fireZones, 'F'⟩,
   ⟨"marine_zone".toList, ugcSection.marineZones, 'M'⟩]

def ugcAreaRow (segmentIndex : Option Int) (sectionIndex : Int)
    (ugcSection : Parser.UgcSection F) (spec : UgcBucketSpec F) (state : Text)
    (area : Parser.UgcArea F)
    : ProductUgcAreaRow F where
  segmentIndex
  sectionIndex
  areaKind := spec.areaKind
  state
  ugcCode := Parser.ugcCode state spec.codePrefix area.id
  name := area.name
  expiresUtc := ugcSection.expires
  latitude := area.lat
  longitude := area.lon

/-- The search point of something that has coordinates. -/
def searchPoint? (sourceKind : Text) (sourceIndex : Int)
    : Option (Parser.GeoPoint F) → Option (ProductSearchPointRow F)
  | none => none
  | some point => some ⟨sourceKind, sourceIndex, point.lat, point.lon⟩

def pushUgcBucket (segmentIndex : Option Int) (sectionIndex : Int)
    (ugcSection : Parser.UgcSection F) (spec : UgcBucketSpec F)
    : BodyRows F where
  ugcAreas := spec.bucket.entries.flatMap fun (state, areas) =>
    areas.map (ugcAreaRow segmentIndex sectionIndex ugcSection spec state)
  searchPoints := spec.bucket.entries.flatMap fun (_, areas) =>
    areas.filterMap fun area => searchPoint? spec.areaKind sectionIndex area.point?

def joinRows (rows : List (BodyRows F)) : BodyRows F := rows.foldl BodyRows.append {}

def collectUgcRows (segmentIndex : Option Int) (sections : List (Parser.UgcSection F))
    : PersistResult (BodyRows F) := do
  let rows ← indexed "ugc_section_index"
    (fun sectionIndex ugcSection =>
      joinRows ((ugcBucketSpecs ugcSection).map
        (pushUgcBucket segmentIndex sectionIndex ugcSection)))
    sections
  .ok (joinRows rows)

/-- A VTEC code as the incident projection reads it. -/
def incidentCode (code : Parser.VtecCode) : VtecCode :=
  ⟨code.status, code.action, code.office, code.phenomena, code.significance, code.etn,
    code.beginUtc, code.endUtc⟩

def hvtecRow (segmentIndex : Option Int) (hvtecIndex : Int) (hvtec : Parser.HvtecCode F)
    : BodyRows F where
  hvtec :=
    [{ segmentIndex
       hvtecIndex
       nwslid := hvtec.nwslid
       locationName := hvtec.location.map (·.placeName)
       severity := severityLabel hvtec.severity
       cause := causeLabel hvtec.cause
       record := recordLabel hvtec.record
       beginUtc := hvtec.beginUtc
       crestUtc := hvtec.crest
       endUtc := hvtec.endUtc
       latitude := hvtec.location.map (·.latitude)
       longitude := hvtec.location.map (·.longitude) }]
  searchPoints := (searchPoint? "hvtec".toList hvtecIndex hvtec.point?).toList

def polygonRow (segmentIndex : Option Int) (polygonIndex : Int) (polygon : Parser.LatLonPolygon F)
    : BodyRows F where
  polygons := [⟨segmentIndex, polygonIndex, polygon.wkt⟩]

def timeMotLocRow (segmentIndex : Option Int) (entryIndex : Int)
    (entry : Parser.TimeMotLocEntry F)
    : BodyRows F where
  timeMotLoc :=
    [⟨segmentIndex, entryIndex, entry.timeUtc, entry.directionDegrees.toNat, entry.speedKt.toNat,
      entry.wkt⟩]
  searchPoints := entry.points.map fun (lat, lon) => ⟨"time_mot_loc".toList, entryIndex, lat, lon⟩

def windHailRow (segmentIndex : Option Int) (entryIndex : Int) (entry : Parser.WindHailEntry F)
    : BodyRows F where
  windHail :=
    [⟨segmentIndex, entryIndex, kindLabel entry.kind, entry.numericValue, entry.units,
      entry.comparison.map ([·])⟩]

def collectSegmentRows (segment : Parser.VtecEventSegment F) : PersistResult (BodyRows F) := do
  let index ← usizeToI32 segment.segmentIndex "segment_index".toList
  let segmentIndex := some index
  let hvtec ← indexed "hvtec_index" (hvtecRow segmentIndex) segment.hvtec
  let polygons ← indexed "polygon_index" (polygonRow segmentIndex) segment.polygons
  let timeMotLoc ← indexed "time_mot_loc_index" (timeMotLocRow segmentIndex) segment.timeMotLoc
  let windHail ← indexed "wind_hail_index" (windHailRow segmentIndex) segment.windHail
  let ugc ← collectUgcRows segmentIndex segment.ugcSections
  .ok (joinRows
    [{ vtec := segment.vtec.map fun code => vtecRow segmentIndex (incidentCode code) },
     joinRows hvtec, joinRows polygons, joinRows timeMotLoc, joinRows windHail, ugc])

def collectVtecEventRows (body : Parser.VtecEventBody F) : PersistResult (BodyRows F) := do
  let rows ← body.segments.mapM collectSegmentRows
  .ok (joinRows rows)

def collectGenericRows (segmentIndex : Option Int) (body : Parser.GenericBody F)
    : PersistResult (BodyRows F) := do
  let ugc ← collectUgcRows segmentIndex (body.ugc.getD [])
  let polygons ← indexed "polygon_index" (polygonRow segmentIndex) (body.latlon.getD [])
  let timeMotLoc ←
    indexed "time_mot_loc_index" (timeMotLocRow segmentIndex) (body.timeMotLoc.getD [])
  let windHail ← indexed "wind_hail_index" (windHailRow segmentIndex) (body.windHail.getD [])
  .ok (joinRows [ugc, joinRows polygons, joinRows timeMotLoc, joinRows windHail])

def collectBodyRows : Option (Parser.ProductBody F) → PersistResult (BodyRows F)
  | none => .ok {}
  | some (.vtecEvent body) => collectVtecEventRows body
  | some (.generic body) => collectGenericRows none body

-----------------------------------------------------------------------------------------
-- Preparing a product
-----------------------------------------------------------------------------------------

structure ProductParseIssue where
  kind : Text
  code : Text
  message : Text
  line : Option Text
  deriving DecidableEq, Repr

/-- A completed file with the summary that was made of it. -/
structure CompletedFileMetadata (F : Type) where
  filename : Text
  size : Nat
  timestampUtc : UInt64
  body : Option (Parser.ProductBody F)
  issues : List ProductParseIssue
  facets : Parser.ProductSummaryFacets
  keys : Parser.ProductSummaryKeys
  issueSummary : Parser.ProductSummaryIssues

/-- The metadata of a product from what enrichment found in it. -/
def CompletedFileMetadata.build (filename : Text) (timestampUtc : UInt64) (size : Nat)
    (body : Option (Parser.ProductBody F)) (hasArtifact : Bool) (issues : List ProductParseIssue)
    : CompletedFileMetadata F where
  filename
  size
  timestampUtc
  body
  issues
  facets := Parser.summaryFacets body hasArtifact issues.length
  keys := Parser.summaryKeys body
  issueSummary := Parser.summaryIssues (issues.map (·.code))

structure ProductRow where
  filename : Text
  sourceTimestampUtc : Int
  sizeBytes : Int
  payloadStorageKind : Text
  payloadLocation : Text
  metadataStorageKind : Option Text
  metadataLocation : Option Text
  hasBody : Bool
  hasArtifact : Bool
  hasIssues : Bool
  hasVtec : Bool
  hasUgc : Bool
  hasHvtec : Bool
  hasLatlon : Bool
  hasTimeMotLoc : Bool
  hasWindHail : Bool
  vtecCount : Int
  ugcCount : Int
  hvtecCount : Int
  latlonCount : Int
  timeMotLocCount : Int
  windHailCount : Int
  issueCount : Int
  states : List Text
  ugcCodes : List Text
  deriving DecidableEq, Repr

structure PreparedProduct (F : Type) where
  row : ProductRow
  issues : List ProductParseIssue
  incidentUpdates : List PreparedIncidentUpdate
  rows : BodyRows F

def findBlobOptional (blobs : List StoredBlob) (role : BlobRole) : Option StoredBlob :=
  blobs.find? (·.role = role)

def roleName : BlobRole → Text
  | .payload => "Payload".toList
  | .metadataSidecar => "MetadataSidecar".toList

def findBlob (blobs : List StoredBlob) (role : BlobRole) : PersistResult StoredBlob :=
  okOr
    (.invalidRequest
      ("missing required `".toList ++ roleName role ++ "` blob reference".toList))
    (findBlobOptional blobs role)

def blobStorageKind : BlobStorageKind → Text
  | .filesystem => "filesystem".toList
  | .s3 => "s3".toList

/-- `i64::try_from` of the size of a file. -/
def sizeBytes (size : Nat) : PersistResult Int :=
  if size < 2 ^ 63 then .ok size
  else
    .error (.invalidRequest
      ("size `".toList ++ Nat.toDigits 10 size ++ "` does not fit in bigint".toList))

def prepareRow (metadata : CompletedFileMetadata F) (payload : StoredBlob)
    (sidecar : Option StoredBlob)
    : PersistResult ProductRow := do
  let sourceTimestampUtc ← sourceTimestamp metadata.timestampUtc
  let sizeBytes ← sizeBytes metadata.size
  let vtecCount ← usizeToI32 metadata.facets.vtecCount "vtec_count".toList
  let ugcCount ← usizeToI32 metadata.facets.ugcCount "ugc_count".toList
  let hvtecCount ← usizeToI32 metadata.facets.hvtecCount "hvtec_count".toList
  let latlonCount ← usizeToI32 metadata.facets.latlonCount "latlon_count".toList
  let timeMotLocCount ← usizeToI32 metadata.facets.timeMotLocCount "time_mot_loc_count".toList
  let windHailCount ← usizeToI32 metadata.facets.windHailCount "wind_hail_count".toList
  let issueCount ← usizeToI32 metadata.issueSummary.count "issue_count".toList
  .ok {
    filename := metadata.filename
    sourceTimestampUtc, sizeBytes
    payloadStorageKind := blobStorageKind payload.kind
    payloadLocation := payload.location
    metadataStorageKind := sidecar.map (blobStorageKind ·.kind)
    metadataLocation := sidecar.map (·.location)
    hasBody := metadata.facets.hasBody
    hasArtifact := metadata.facets.hasArtifact
    hasIssues := metadata.facets.hasIssues
    hasVtec := metadata.facets.vtecCount > 0
    hasUgc := metadata.facets.ugcCount > 0
    hasHvtec := metadata.facets.hvtecCount > 0
    hasLatlon := metadata.facets.latlonCount > 0
    hasTimeMotLoc := metadata.facets.timeMotLocCount > 0
    hasWindHail := metadata.facets.windHailCount > 0
    vtecCount, ugcCount, hvtecCount, latlonCount, timeMotLocCount, windHailCount, issueCount
    states := metadata.keys.states
    ugcCodes := metadata.keys.ugcCodes }

def PreparedProduct.prepare (metadata : CompletedFileMetadata F) (blobs : List StoredBlob)
    : PersistResult (PreparedProduct F) := do
  let payload ← findBlob blobs .payload
  let sidecar := findBlobOptional blobs .metadataSidecar
  let row ← prepareRow metadata payload sidecar
  let rows ← collectBodyRows metadata.body
  let incidentUpdates ← prepareIncidentUpdates row.sourceTimestampUtc rows.vtec
  .ok { row, issues := metadata.issues, incidentUpdates, rows }

end Emwin.Db.Rows
