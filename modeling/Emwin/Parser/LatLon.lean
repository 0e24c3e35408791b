import Emwin.Parser.Support

/-! Warning polygons: `LAT...LON` blocks of packed coordinates, wrapped over lines and sometimes
damaged.
-/

namespace Emwin.Parser
open Library

def latlonMarker : Text := "LAT...LON".toList

/-- The candidate of a block and the line that its marker is on. -/
structure LatLonCandidate where
  raw : Text
  sourceLine : Text
  deriving DecidableEq, Repr

-----------------------------------------------------------------------------------------
-- Candidates
-----------------------------------------------------------------------------------------

/-- Digits, possibly behind minus signs. -/
def isCoordinateWord (token : Text) : Bool :=
  let digits := token.dropWhile (· = '-')
  digits ≠ [] && digits.all Char.isDigit

def looksLikeCoordinateLine (line : Text) : Bool := (splitWhitespace line).all isCoordinateWord

def latlonStartsNewSectionHeader (line : Text) : Bool :=
  headsNewSection looksLikeCoordinateLine line

/-- Whether a trimmed line ends the block before it. -/
def endsLatlonBlock (line : Text) : Bool :=
  line = [] || (asciiFindCaseInsensitive line latlonMarker).isSome
  || latlonStartsNewSectionHeader line && !looksLikeCoordinateLine line

def markerHasCoordinates (raw : Text) : Bool :=
  match splitWhitespace raw with
  | marker :: token :: _ =>
      eqIgnoreAsciiCase marker latlonMarker && (token.dropWhile (· = '-')).all Char.isDigit
  | _ => false

/-- The block joined over the lines behind its first one, and the number of them taken. -/
def joinLatlonLines (raw : Text) : List Text → Text × Nat
  | [] => (raw, 0)
  | line :: rest =>
      let nextLine := trim line
      if endsLatlonBlock nextLine then (raw, 0)
      else
        let joined := (if raw = [] then raw else raw ++ [' ']) ++ nextLine
        -- with coordinates read, the next line is looked at before the loop goes on
        if markerHasCoordinates joined && rest.head?.all (endsLatlonBlock ∘ trim) then (joined, 1)
        else
          let (whole, taken) := joinLatlonLines joined rest
          (whole, taken + 1)

def collectLatlonCandidate (line : Text) (markerPosition : Nat) (rest : List Text)
    : Except Panic (Text × Nat) := do
  let raw ← sliceFrom markerPosition line
  return joinLatlonLines (trim raw) rest

/-- The candidates of the lines behind those that are already taken. -/
def latlonCandidatesFrom : (taken : Nat) → List Text → Except Panic (List LatLonCandidate)
  | _, [] => return []
  | taken + 1, _ :: rest => latlonCandidatesFrom taken rest
  | 0, line :: rest =>
      match asciiFindCaseInsensitive line latlonMarker with
      | none => latlonCandidatesFrom 0 rest
      | some markerPosition => do
          let (raw, taken) ← collectLatlonCandidate line markerPosition rest
          let later ← latlonCandidatesFrom taken rest
          return ⟨raw, line⟩ :: later

def findLatlonCandidates (text : Text) : Except Panic (List LatLonCandidate) :=
  latlonCandidatesFrom 0 (lines text)

-----------------------------------------------------------------------------------------
-- Coordinates
-----------------------------------------------------------------------------------------

section Coordinates

variable {F : Type} [Measure F]

/-- A coordinate by the number of its bytes, before the sign and the shift. -/
def packedDegrees (coord : Text) : Except Panic (Option F) :=
  match utf8Len coord with
  | 4 | 5 => return (Measure.parse coord).map fun hundredths : F => hundredths / (100 : Nat)
  | 6 => do
      match ← sliceMeasure F 0 2 coord with
      | none => return none
      | some degrees =>
          match ← sliceMeasure F 2 4 coord with
          | none => return none
          | some minutes =>
              let seconds ← sliceMeasure F 4 6 coord
              return seconds.map fun seconds =>
                degrees + minutes / (60 : Nat) + seconds / (3600 : Nat)
  | 7 => do
      match ← sliceMeasure F 0 2 coord with
      | none => return none
      | some degrees =>
          let decimal ← sliceMeasure F 2 7 coord
          return decimal.map fun decimal => degrees + decimal / (100000 : Nat)
  | 8 => do
      match ← sliceMeasure F 0 2 coord with
      | none => return none
      | some degrees =>
          match ← sliceMeasure F 2 4 coord with
          | none => return none
          | some minutes =>
              match ← sliceMeasure F 4 6 coord with
              | none => return none
              | some seconds =>
                  let hundredths ← sliceMeasure F 6 8 coord
                  return hundredths.map fun hundredths =>
                    degrees + minutes / (60 : Nat)
                    + (seconds + hundredths / (100 : Nat)) / (3600 : Nat)
  | _ => return Measure.parse coord

def latlonParseCoordinate (coord : Text) (isLatitude : Bool) : Except Panic (Option F) :=
  let coord := trim coord
  if coord.head? = some '-' then return Measure.parse coord
  else do
    match ← packedDegrees coord with
    | none => return none
    | some value =>
        if isLatitude then return some value
        -- western longitudes without the leading `10x` are shifted back
        else
          return some (-(if Measure.lessThan value ((40 : Nat) : F) then value + (100 : Nat)
            else value))

/-- Whether a text is a coordinate. -/
def readsLatlon (coord : Text) (isLatitude : Bool) : Except Panic Bool :=
  Option.isSome <$> latlonParseCoordinate (F := F) coord isLatitude

/-- A latitude and a longitude of four digits each in one token. -/
def latlonSplitPackedCoordinatePair (normalized : List Text) (token : Text)
    : Except Panic (Option (Text × Text)) :=
  if token.head? = some '-' ∨ utf8Len token ≠ 8 ∨ normalized.length % 2 ≠ 0 then return none
  else do
    let lat ← sliceTo 4 token
    let lon ← sliceFrom 4 token
    if !(← readsLatlon (F := F) lat true) then return none
    if !(← readsLatlon (F := F) lon false) then return none
    return some (lat, lon)

/-- A longitude fused with the latitude behind it, where a longitude is expected and all tokens
so far have four or five digits.
-/
def splitFusedCoordinateToken (normalized : List Text) (token : Text)
    : Except Panic (Option (Text × Text)) :=
  if token.head? = some '-' ∨ utf8Len token ≠ 8 ∨ normalized.length % 2 = 0 then return none
  else if normalized.any fun coord => coord.head? = some '-' || 5 < utf8Len coord then return none
  else do
    let lon ← sliceTo 4 token
    let lat ← sliceFrom 4 token
    match normalized.getLast? with
    | none => return none
    | some pendingLatitude =>
        if !(← readsLatlon (F := F) pendingLatitude true) then return none
        if !(← readsLatlon (F := F) lon false) then return none
        if !(← readsLatlon (F := F) lat true) then return none
        return some (lon, lat)

def isLatlonTerminator (token : Text) : Bool := trim token = "$$".toList || trim token = "&&".toList

def acceptsLatlonToken (token : Text) : Bool := (token.dropWhile (· = '-')).all Char.isDigit

def fusedTokenIssue (token lon lat : Text) : ProductParseIssue :=
  .new "latlon_parse" "latlon_fused_token_repaired"
    ("repaired fused LAT...LON coordinate token `".toList ++ token ++ "` into `".toList ++ lon
      ++ "` `".toList ++ lat ++ "`".toList)
    (some token)

/-- The tokens behind those already taken, with split and fused ones repaired. -/
def normalizeLatlonFrom (normalized : List Text)
    : (taken : Nat) → List Text → Except Panic (Option (List Text × List ProductParseIssue))
  | _, [] => return some (normalized, [])
  | taken + 1, _ :: rest => normalizeLatlonFrom normalized taken rest
  | 0, first :: rest =>
      if isLatlonTerminator first then return some (normalized, [])
      else
        match consumeWords acceptsLatlonToken [] first rest with
        | none => return none
        | some (token, taken) => do
            match ← latlonSplitPackedCoordinatePair (F := F) normalized token with
            | some (lat, lon) => normalizeLatlonFrom (normalized ++ [lat, lon]) taken rest
            | none =>
                match ← splitFusedCoordinateToken (F := F) normalized token with
                | some (lon, lat) => do
                    let later ← normalizeLatlonFrom (normalized ++ [lon, lat]) taken rest
                    return later.map fun (tokens, issues) =>
                      (tokens, fusedTokenIssue token lon lat :: issues)
                | none => normalizeLatlonFrom (normalized ++ [token]) taken rest

def normalizeLatlonTokens (tokens : List Text)
    : Except Panic (Option (List Text × List ProductParseIssue)) :=
  normalizeLatlonFrom (F := F) [] 0 tokens

def latlonIssue (code message : String) (raw : Text) : ProductParseIssue :=
  .new "latlon_parse" code (quoting message raw) (some raw)

def latlonCountIssue (raw : Text) : ProductParseIssue :=
  latlonIssue "invalid_latlon_coordinate_count" "LAT...LON block has an invalid coordinate count"
    raw

def latlonCoordinateIssue (isLatitude : Bool) (raw : Text) : ProductParseIssue :=
  if isLatitude then
    latlonIssue "invalid_latlon_latitude" "could not parse LAT...LON latitude from block" raw
  else latlonIssue "invalid_latlon_longitude" "could not parse LAT...LON longitude from block" raw

/-- Points from pairs of coordinates, or from tokens that hold a pair. -/
def parsePointsFrom (raw : Text) (points : List (F × F)) (pendingLatitude : Option F)
    : List Text → Except Panic (Except ProductParseIssue (List (F × F)))
  | [] =>
      return if pendingLatitude.isSome || points.length < 3 then .error (latlonCountIssue raw)
      else .ok points
  | coord :: rest =>
      if utf8Len coord = 8 ∧ coord.head? ≠ some '-' then
        if pendingLatitude.isSome then return .error (latlonCountIssue raw)
        else do
          let latPart ← sliceTo 4 coord
          match ← latlonParseCoordinate (F := F) latPart true with
          | none => return .error (latlonCoordinateIssue true raw)
          | some lat => do
              let lonPart ← sliceFrom 4 coord
              match ← latlonParseCoordinate (F := F) lonPart false with
              | none => return .error (latlonCoordinateIssue false raw)
              | some lon => parsePointsFrom raw (points ++ [(lat, lon)]) none rest
      else do
        match ← latlonParseCoordinate (F := F) coord pendingLatitude.isNone with
        | none => return .error (latlonCoordinateIssue pendingLatitude.isNone raw)
        | some value =>
            match pendingLatitude with
            | some lat => parsePointsFrom raw (points ++ [(lat, value)]) none rest
            | none => parsePointsFrom raw points (some value) rest

def parsePoints (coords : List Text) (raw : Text)
    : Except Panic (Except ProductParseIssue (List (F × F))) :=
  parsePointsFrom raw [] none coords

-----------------------------------------------------------------------------------------
-- Polygons
-----------------------------------------------------------------------------------------

def pointXy (point : F × F) : F × F := (point.2, point.1)

def orientation (first second third : F × F) : F :=
  (second.2 - first.2) * (third.1 - second.1) - (second.1 - first.1) * (third.2 - second.2)

def segmentsIntersect (firstStart firstEnd secondStart secondEnd : F × F) : Bool :=
  let firstOrientation := orientation firstStart firstEnd secondStart
  let secondOrientation := orientation firstStart firstEnd secondEnd
  let thirdOrientation := orientation secondStart secondEnd firstStart
  let fourthOrientation := orientation secondStart secondEnd firstEnd
  Measure.lessThan (firstOrientation * secondOrientation) ((0 : Nat) : F)
  && Measure.lessThan (thirdOrientation * fourthOrientation) ((0 : Nat) : F)

/-- The sides of a closed line of points, with their numbers. -/
def sides (points : List (F × F)) : List (((F × F) × (F × F)) × Nat) :=
  ((points.map pointXy).zip (points.map pointXy).tail).zipIdx

/-- Some two sides that are not neighbours cross. -/
def hasSelfIntersection (points : List (F × F)) : Bool :=
  let count := points.length - 1
  (sides points).any fun (first, firstIndex) =>
    (sides points).any fun (second, secondIndex) =>
      firstIndex < secondIndex
      && !(secondIndex = firstIndex + 1 || (firstIndex = 0 && secondIndex = count - 1))
      && segmentsIntersect first.1 first.2 second.1 second.2

def samePoint (left right : F × F) : Bool :=
  Measure.same left.1 right.1 && Measure.same left.2 right.2

/-- The points with the first one added at the end, if it is not there. -/
def closeRing : List (F × F) → List (F × F)
  | [] => []
  | first :: rest =>
      if samePoint first (rest.getLast?.getD first) then first :: rest else first :: rest ++ [first]

def validatePolygon (points : List (F × F)) (raw : Text)
    : Except ProductParseIssue (List (F × F)) :=
  if points.length < 3 then .error (latlonCountIssue raw)
  else
    let closed := closeRing points
    if 4 < closed.length ∧ hasSelfIntersection closed then
      .error (latlonIssue "latlon_geometry_invalid"
        "LAT...LON block produced a self-intersecting polygon" raw)
    else .ok closed

def parseLatlonCandidate (candidate : LatLonCandidate)
    : Except Panic (Option (LatLonPolygon F) × List ProductParseIssue) :=
  let raw := trim candidate.raw
  let invalidFormat :=
    latlonIssue "invalid_latlon_format" "could not parse LAT...LON block" raw
  match splitWhitespace raw with
  | [] => return (none, [invalidFormat])
  | marker :: rawCoords =>
      if !eqIgnoreAsciiCase marker latlonMarker then return (none, [invalidFormat])
      else do
        match ← normalizeLatlonTokens (F := F) rawCoords with
        | none =>
            return (none, [latlonIssue "invalid_latlon_coordinate_format"
              "could not normalize LAT...LON coordinates from block" raw])
        | some (coords, issues) =>
            match ← parsePoints (F := F) coords raw with
            | .error issue => return (none, issues ++ [issue])
            | .ok points =>
                match validatePolygon points raw with
                | .error issue => return (none, issues ++ [issue])
                | .ok points => return (some ⟨points, formatPolygonWkt points⟩, issues)

def parseLatlonPolygonsWithIssues (text : Text)
    : Except Panic (List (LatLonPolygon F) × List ProductParseIssue) := do
  let candidates ← findLatlonCandidates text
  let results ← candidates.mapM parseLatlonCandidate
  return (results.filterMap Prod.fst, results.flatMap Prod.snd)

end Coordinates

end Emwin.Parser
