import Emwin.Parser.LatLon
import Emwin.Parser.TimeMotLoc
import Emwin.Parser.Ugc
import Emwin.Parser.Vtec
import Emwin.Parser.WindHail

/-! Bodies with VTEC codes: the text is split into segments, and all extractors read each of them,
so that codes, areas and polygons of one event stay together.
-/

namespace Emwin.Parser
open Library

/-- What the extractors take from outside of the parser. -/
structure Externals (F : Type) where
  calendar : Calendar
  locations : Locations F
  /-- `captures_iter` of the pattern for combined wind and hail tags. -/
  legacyMatches : Text → List LegacyMatch

-----------------------------------------------------------------------------------------
-- Splitting
-----------------------------------------------------------------------------------------

section Splitting

variable {F : Type} (externals : Externals F)

def lineHasVtec (line : Text) : Except Panic Bool := do
  let (codes, _) ← parseVtecCodesWithIssues externals.calendar line
  return !codes.isEmpty

def upperStart (line : Text) : Text := toAsciiUppercase (trimStart line)

def lineHasTimeMotLoc (line : Text) : Bool := "TIME...MOT...LOC".toList <+: upperStart line

def lineHasGeography (line : Text) : Bool :=
  "LAT...LON".toList <+: upperStart line || "TIME...MOT...LOC".toList <+: upperStart line

def lineHasWindHail (line : Text) : Bool :=
  "HAILTHREAT".toList <+: upperStart line || "MAXHAILSIZE".toList <+: upperStart line
  || "WINDTHREAT".toList <+: upperStart line || "MAXWINDGUST".toList <+: upperStart line

def looksLikeEventContent (line : Text) : Except Panic Bool := do
  if isUgcStart line then return true
  if ← lineHasVtec externals line then return true
  if lineHasGeography line then return true
  if lineHasWindHail line then return true
  let (codes, _) ←
    parseHvtecCodesWithIssues externals.calendar externals.locations.nwslidEntry line
  return !codes.isEmpty

/-- The segments so far, the lines of the open one, and what was seen in it. -/
structure SplitState where
  segments : List Text := []
  current : List Text := []
  currentHasVtec : Bool := false
  currentHasGeography : Bool := false

def joinLines (lines : List Text) : Text := ['\n'].intercalate lines

def pushVtecSegment (state : SplitState) : Except Panic SplitState :=
  if state.current = [] then return state
  else do
    let joined := joinLines state.current
    let (codes, _) ← parseVtecCodesWithIssues externals.calendar joined
    return { state with
      segments := if codes.isEmpty then state.segments else state.segments ++ [joined]
      current := [] }

/-- The open segment closed, and nothing seen of the next one. -/
def flushSegment (state : SplitState) : Except Panic SplitState := do
  let pushed ← pushVtecSegment externals state
  return { pushed with currentHasVtec := false, currentHasGeography := false }

/-- Whether a line starts a segment while one with a code is open. -/
def isSegmentBoundary (state : SplitState) (trimmed : Text) : Except Panic Bool := do
  if state.current = [] || !state.currentHasVtec then return false
  if isUgcStart trimmed then return true
  let hasVtec ← lineHasVtec externals trimmed
  return hasVtec && state.currentHasGeography

/-- A line added to the open segment, or skipped where it starts none. -/
def addLine (state : SplitState) (trimmed : Text) : Except Panic SplitState := do
  let skipped ←
    if state.current = [] then Bool.not <$> looksLikeEventContent externals trimmed
    else pure false
  if skipped then return state
  else if trim trimmed = [] && state.current = [] then return state
  else do
    let hasVtec ← lineHasVtec externals trimmed
    return { state with
      current := state.current ++ [trimmed]
      currentHasVtec := state.currentHasVtec || hasVtec
      currentHasGeography := state.currentHasGeography || lineHasGeography trimmed }

def splitStep (state : SplitState) (line : Text) : Except Panic SplitState := do
  let trimmed := trimEnd line
  if trim trimmed = "$$".toList then flushSegment externals state
  else
    let boundary ← isSegmentBoundary externals state trimmed
    let state ← if boundary then flushSegment externals state else pure state
    addLine externals state trimmed

/-- The text without carriage returns. -/
def normalizeReturns (text : Text) : Text := text.filter (· ≠ '\r')

def splitVtecSegments (text : Text) : Except Panic (List Text) := do
  let state ← (lines (normalizeReturns text)).foldlM (splitStep externals) {}
  let state ← pushVtecSegment externals state
  return state.segments

end Splitting

-----------------------------------------------------------------------------------------
-- Checks
-----------------------------------------------------------------------------------------

section Checks

variable {F : Type}

/-- The codes seen, and those seen twice, each in order. -/
structure SeenCodes where
  seen : OrderedMap Text Unit := {}
  duplicates : OrderedMap Text Unit := {}

def SeenCodes.insert (codes : SeenCodes) (canonical : Text) : SeenCodes :=
  if (codes.seen.get? canonical).isSome then
    { codes with duplicates := codes.duplicates.alter canonical fun _ => () }
  else { codes with seen := codes.seen.alter canonical fun _ => () }

def collectDuplicateUgcCodes (codes : SeenCodes) (groups : UgcBucket F) (classCode : Char)
    : SeenCodes :=
  groups.entries.foldl
    (fun codes (state, areas) =>
      areas.foldl (fun codes area => codes.insert (state ++ classCode :: threeDigits area.id.toNat))
        codes)
    codes

/-- The codes of the four buckets of a section. -/
def collectSectionCodes (codes : SeenCodes) (ugcSection : UgcSection F) : SeenCodes :=
  let codes := collectDuplicateUgcCodes codes ugcSection.counties 'C'
  let codes := collectDuplicateUgcCodes codes ugcSection.zones 'Z'
  let codes := collectDuplicateUgcCodes codes ugcSection.fireZones 'F'
  collectDuplicateUgcCodes codes ugcSection.marineZones 'M'

def findSegmentDuplicateUgcCodes (segment : VtecEventSegment F) : List Text :=
  (segment.ugcSections.foldl collectSectionCodes {}).duplicates.entries.map Prod.fst

def segmentHasMarineOnlyUgc (segment : VtecEventSegment F) : Bool :=
  !segment.ugcSections.isEmpty
  && segment.ugcSections.all fun ugcSection =>
      ugcSection.counties.entries.isEmpty && ugcSection.zones.entries.isEmpty
      && ugcSection.fireZones.entries.isEmpty && !ugcSection.marineZones.entries.isEmpty

def segmentIsWatchOnly (segment : VtecEventSegment F) : Bool :=
  !segment.vtec.isEmpty && segment.vtec.all (·.significance = 'A')

/-- An issue about a segment. -/
def segmentIssue (kind code : String) (segmentIndex : Nat) (message : Text) : ProductParseIssue :=
  .new kind code ("segment ".toList ++ Nat.toDigits 10 segmentIndex ++ message) none

/-- What could not be read since there is no reference time. -/
structure VtecSegmentQcContext where
  ugcBlockedByMissingReferenceTime : Bool := false
  timeMotLocBlockedByMissingReferenceTime : Bool := false
  deriving DecidableEq, Repr

def validateVtecSegment (segment : VtecEventSegment F) (context : VtecSegmentQcContext)
    : List ProductParseIssue :=
  let missingUgc :=
    if segment.ugcSections.isEmpty && !context.ugcBlockedByMissingReferenceTime then
      [segmentIssue "body_qc" "vtec_segment_missing_ugc" segment.segmentIndex
        " parsed VTEC content but did not recover UGC sections from the source text".toList]
    else []
  let missingPolygon :=
    if segment.polygons.isEmpty && !segmentHasMarineOnlyUgc segment
        && !segmentIsWatchOnly segment then
      [segmentIssue "body_qc" "vtec_segment_missing_required_polygon" segment.segmentIndex
        (" parsed VTEC content but did not recover a LAT...LON polygon from the source "
          ++ "text").toList]
    else []
  let duplicates := findSegmentDuplicateUgcCodes segment
  let duplicateCodes :=
    if duplicates = [] then []
    else
      [segmentIssue "body_qc" "vtec_segment_duplicate_ugc_code" segment.segmentIndex
        (" encountered duplicated UGC codes: ".toList ++ ", ".toList.intercalate duplicates)]
  missingUgc ++ missingPolygon ++ duplicateCodes

end Checks

-----------------------------------------------------------------------------------------
-- Segments
-----------------------------------------------------------------------------------------

section Segments

variable {F : Type} [Measure F] (externals : Externals F)

/-- What one extractor reads in a segment, its issues, and whether it lacks the time. -/
structure Extracted (α : Type) where
  values : List α := []
  issues : List ProductParseIssue := []
  blocked : Bool := false

/-- An extractor that needs the reference time. Without one there is an issue if a line of the
segment calls for it.
-/
def extractWithTime {α : Type} (referenceTime : Option UtcTime)
    (extract : UtcTime → Except Panic (List α × List ProductParseIssue))
    (callsFor : Text → Bool) (missing : ProductParseIssue) (rawSegment : Text)
    : Except Panic (Extracted α) :=
  match referenceTime with
  | some referenceTime => do
      let (values, issues) ← extract referenceTime
      return { values, issues }
  | none =>
      return if (lines rawSegment).any callsFor then { issues := [missing], blocked := true }
        else {}

def missingUgcTimeIssue (segmentIndex : Nat) : ProductParseIssue :=
  segmentIssue "ugc_parse" "missing_reference_time" segmentIndex
    (" could not parse UGC sections because the header timestamp could not be resolved").toList

def missingTmlTimeIssue (segmentIndex : Nat) : ProductParseIssue :=
  segmentIssue "time_mot_loc_parse" "missing_reference_time" segmentIndex
    (" could not parse TIME...MOT...LOC entries because the header timestamp could not be "
      ++ "resolved").toList

/-- The segment of a piece of text, if it has a code, and its issues. -/
def parseVtecSegment (referenceTime : Option UtcTime) (segmentIndex : Nat) (rawSegment : Text)
    : Except Panic (Option (VtecEventSegment F) × List ProductParseIssue) := do
  let (vtec, vtecIssues) ← parseVtecCodesWithIssues externals.calendar rawSegment
  if vtec = [] then return (none, vtecIssues)
  else
    let ugc ← extractWithTime referenceTime
      (parseUgcSectionsWithIssues externals.calendar externals.locations rawSegment)
      isUgcStart (missingUgcTimeIssue segmentIndex) rawSegment
    let (hvtec, hvtecIssues) ←
      parseHvtecCodesWithIssues externals.calendar externals.locations.nwslidEntry rawSegment
    let (polygons, polygonIssues) ← parseLatlonPolygonsWithIssues rawSegment
    let timeMotLoc ← extractWithTime referenceTime
      (parseTimeMotLocEntriesWithIssues externals.calendar rawSegment)
      lineHasTimeMotLoc (missingTmlTimeIssue segmentIndex) rawSegment
    let (windHail, windHailIssues) ←
      parseWindHailEntriesWithIssues externals.legacyMatches rawSegment
    let segment : VtecEventSegment F :=
      { segmentIndex, vtec, ugcSections := ugc.values, hvtec, polygons
        timeMotLoc := timeMotLoc.values, windHail }
    return (some segment,
      vtecIssues ++ ugc.issues ++ hvtecIssues ++ polygonIssues ++ timeMotLoc.issues
        ++ windHailIssues ++ validateVtecSegment segment ⟨ugc.blocked, timeMotLoc.blocked⟩)

def parseVtecEventBodyWithIssues (text : Text) (referenceTime : Option UtcTime)
    : Except Panic (Option (VtecEventBody F) × List ProductParseIssue) := do
  let rawSegments ← splitVtecSegments externals text
  let results ← rawSegments.zipIdx.mapM fun (rawSegment, segmentIndex) =>
    parseVtecSegment externals referenceTime segmentIndex rawSegment
  let segments := results.filterMap Prod.fst
  return (if segments.isEmpty then none else some ⟨segments⟩, results.flatMap Prod.snd)

def vtecEventBodyHasMarineOnlyUgc (body : VtecEventBody F) : Bool :=
  !body.segments.isEmpty && body.segments.all segmentHasMarineOnlyUgc

end Segments

end Emwin.Parser
