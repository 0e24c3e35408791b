import Emwin.Parser.Body

/-! The summary of a product: how many entries of each kind its body has, and the keys that it
is found by.
-/

namespace Emwin.Parser
open Library

variable {F : Type}

structure ProductSummaryFacets where
  hasBody : Bool
  hasArtifact : Bool
  hasIssues : Bool
  vtecCount : Nat
  ugcCount : Nat
  hvtecCount : Nat
  latlonCount : Nat
  timeMotLocCount : Nat
  windHailCount : Nat
  deriving DecidableEq, Repr

structure ProductSummaryKeys where
  states : List Text := []
  ugcCodes : List Text := []
  vtecPhenomena : List Text := []
  vtecSignificance : List Text := []
  vtecActions : List Text := []
  vtecOffices : List Text := []
  etns : List Nat := []
  hvtecNwslids : List Text := []
  hvtecCauses : List Text := []
  hvtecSeverities : List Text := []
  hvtecRecords : List Text := []
  deriving DecidableEq, Repr

def hvtecSeverityName : HvtecSeverity → Text
  | .none => "none".toList
  | .minor => "minor".toList
  | .moderate => "moderate".toList
  | .major => "major".toList
  | .unknown => "unknown".toList

def hvtecCauseName : HvtecCause → Text
  | .damFailure => "dam_failure".toList
  | .excessiveRainfall => "excessive_rainfall".toList
  | .glacierOutburst => "glacier_outburst".toList
  | .iceJam => "ice_jam".toList
  | .rainAndSnowmelt => "rain_and_snowmelt".toList
  | .snowmelt => "snowmelt".toList
  | .rainSnowmeltIceJam => "rain_snowmelt_ice_jam".toList
  | .upstreamFloodingStormSurge => "upstream_flooding_storm_surge".toList
  | .upstreamFloodingTidalEffects => "upstream_flooding_tidal_effects".toList
  | .elevatedUpstreamFlowTidalEffects => "elevated_upstream_flow_tidal_effects".toList
  | .windTidalEffects => "wind_tidal_effects".toList
  | .upstreamDamRelease => "upstream_dam_release".toList
  | .multipleCauses => "multiple_causes".toList
  | .otherEffects => "other_effects".toList
  | .other => "other".toList
  | .unknown => "unknown".toList

def hvtecRecordName : HvtecRecord → Text
  | .nearRecord => "near_record".toList
  | .noRecord => "no_record".toList
  | .notApplicable => "not_applicable".toList
  | .unavailable => "unavailable".toList
  | .unknown => "unknown".toList

def bodyUgcSections : ProductBody F → List (UgcSection F)
  | .vtecEvent body => body.segments.flatMap (·.ugcSections)
  | .generic body => body.ugc.toList.flatten

def bodyVtecCodes : ProductBody F → List VtecCode
  | .vtecEvent body => body.segments.flatMap (·.vtec)
  | .generic _ => []

def bodyHvtecCodes : ProductBody F → List (HvtecCode F)
  | .vtecEvent body => body.segments.flatMap (·.hvtec)
  | .generic _ => []

def bodyWindHailEntries : ProductBody F → List (WindHailEntry F)
  | .vtecEvent body => body.segments.flatMap (·.windHail)
  | .generic body => body.windHail.toList.flatten

def bodyVtecCount (body : ProductBody F) : Nat := (bodyVtecCodes body).length

def bodyUgcCount : ProductBody F → Nat
  | .vtecEvent body => (body.segments.map (·.ugcSections.length)).sum
  | .generic body => body.ugc.elim 0 List.length

def bodyHvtecCount (body : ProductBody F) : Nat := (bodyHvtecCodes body).length

def bodyLatlonCount : ProductBody F → Nat
  | .vtecEvent body => (body.segments.map (·.polygons.length)).sum
  | .generic body => body.latlon.elim 0 List.length

def bodyTimeMotLocCount : ProductBody F → Nat
  | .vtecEvent body => (body.segments.map (·.timeMotLoc.length)).sum
  | .generic body => body.timeMotLoc.elim 0 List.length

def bodyWindHailCount (body : ProductBody F) : Nat := (bodyWindHailEntries body).length

/-- The facets of a product with a number of issues. -/
def summaryFacets (body : Option (ProductBody F)) (hasArtifact : Bool) (issueCount : Nat)
    : ProductSummaryFacets where
  hasBody := body.isSome
  hasArtifact
  hasIssues := issueCount ≠ 0
  vtecCount := body.elim 0 bodyVtecCount
  ugcCount := body.elim 0 bodyUgcCount
  hvtecCount := body.elim 0 bodyHvtecCount
  latlonCount := body.elim 0 bodyLatlonCount
  timeMotLocCount := body.elim 0 bodyTimeMotLocCount
  windHailCount := body.elim 0 bodyWindHailCount

/-- `format!("{:03}", id)`. -/
def formatId (id : UInt16) : Text :=
  let digits := Nat.toDigits 10 id.toNat
  List.replicate (3 - digits.length) '0' ++ digits

/-- A UGC code: the state, the letter of a class of areas and the number of the area. -/
def ugcCode (state : Text) (classCode : Char) (id : UInt16) : Text :=
  state ++ classCode :: formatId id

/-- The codes of a bucket under the letter of a class. -/
def bucketCodes (bucket : UgcBucket F) (classCode : Char) : List Text :=
  bucket.entries.flatMap fun (state, areas) => areas.map fun area => ugcCode state classCode area.id

def sectionStates (ugcSection : UgcSection F) : List Text :=
  [ugcSection.counties, ugcSection.zones, ugcSection.fireZones, ugcSection.marineZones].flatMap
    fun bucket => bucket.entries.map Prod.fst

/-- The codes that `summary_keys` collects from a section. -/
def sectionCodes (ugcSection : UgcSection F) : List Text :=
  bucketCodes ugcSection.counties 'C' ++ bucketCodes ugcSection.zones 'Z'
  ++ bucketCodes ugcSection.fireZones 'F' ++ bucketCodes ugcSection.marineZones 'Z'

def summaryKeys : Option (ProductBody F) → ProductSummaryKeys
  | none => {}
  | some body =>
      { states := orderedSet ((bodyUgcSections body).flatMap sectionStates)
        ugcCodes := orderedSet ((bodyUgcSections body).flatMap sectionCodes)
        vtecPhenomena := orderedSet ((bodyVtecCodes body).map (·.phenomena))
        vtecSignificance := orderedSet ((bodyVtecCodes body).map ([·.significance]))
        vtecActions := orderedSet ((bodyVtecCodes body).map (·.action))
        vtecOffices := orderedSet ((bodyVtecCodes body).map (·.office))
        etns := orderedSet ((bodyVtecCodes body).map (·.etn.toNat))
        hvtecNwslids := orderedSet ((bodyHvtecCodes body).map (·.nwslid))
        hvtecCauses := orderedSet ((bodyHvtecCodes body).map (hvtecCauseName ·.cause))
        hvtecSeverities := orderedSet ((bodyHvtecCodes body).map (hvtecSeverityName ·.severity))
        hvtecRecords := orderedSet ((bodyHvtecCodes body).map (hvtecRecordName ·.record)) }

/-- The number and the codes of the issues of a product. -/
structure ProductSummaryIssues where
  count : Nat
  codes : List Text
  deriving DecidableEq, Repr

def summaryIssues (codes : List Text) : ProductSummaryIssues := ⟨codes.length, orderedSet codes⟩

end Emwin.Parser
