import Emwin.Parser.Time

/-! Storm motion: `TIME...MOT...LOC` lines with a clock time, a direction, a speed and packed
coordinates.
-/

namespace Emwin.Parser
open Library

def timeMotLocMarker : Text := "TIME...MOT...LOC".toList

structure TimeMotLocCandidate where
  raw : Text
  sourceLine : Text
  markerWasEmbedded : Bool
  deriving DecidableEq, Repr

-----------------------------------------------------------------------------------------
-- Tokens
-----------------------------------------------------------------------------------------

/-- A number with its unit, in one token or in two; what is left of the tokens either way. -/
def numberWithUnit (unit : Text) : List Text → Option Nat × List Text
  | [] => (none, [])
  | token :: rest =>
      match stripSuffix unit token with
      | some value => (parseUnsigned (2 ^ 16) value, rest)
      | none =>
          if token.all Char.isDigit then
            match rest with
            | [] => (none, [])
            | word :: rest =>
                (if eqIgnoreAsciiCase word unit then parseUnsigned (2 ^ 16) token else none, rest)
          else (none, rest)

def parseDegreesToken : List Text → Option Nat × List Text := numberWithUnit "DEG".toList

def parseSpeedToken : List Text → Option Nat × List Text := numberWithUnit "KT".toList

def parseTimeShape (token : Text) : Except Panic Bool :=
  if utf8Len token ≠ 5 ∨ token.getLast? ≠ some 'Z' then return false
  else do
    let digits ← sliceTo 4 token
    return digits.all Char.isDigit

def parseTimeToken (calendar : Calendar) (token : Text) (referenceTime : UtcTime)
    : Except Panic (Option UtcTime) := do
  if !(← parseTimeShape token) then return none
  match ← sliceNumber 0 2 token with
  | none => return none
  | some hour =>
      let minute ← sliceNumber 2 4 token
      return minute.bind fun minute => resolveClockTimeNearest calendar referenceTime hour minute

-----------------------------------------------------------------------------------------
-- Candidates
-----------------------------------------------------------------------------------------

def candidateHasParseablePrefix (raw : Text) : Except Panic Bool :=
  match splitWhitespace raw with
  | marker :: time :: tokens =>
      let (direction, tokens) := parseDegreesToken tokens
      let (speed, _) := parseSpeedToken tokens
      if direction.isSome && speed.isSome && eqIgnoreAsciiCase marker timeMotLocMarker then
        parseTimeShape time
      else return false
  | _ => return false

def hasOddCoordinateTail (raw : Text) : Bool :=
  let tokens := (splitWhitespace raw).drop 2
  let (_, tokens) := parseDegreesToken tokens
  let (_, tokens) := parseSpeedToken tokens
  0 < tokens.length && tokens.length % 2 ≠ 0

def looksLikeTmlCoordinateLine (line : Text) : Bool :=
  (splitWhitespace line).all fun token => token ≠ [] && token.all Char.isDigit

def tmlStartsNewSectionHeader (line : Text) : Bool :=
  headsNewSection looksLikeTmlCoordinateLine line

/-- Whether a trimmed line ends the candidate before it. -/
def endsTmlCandidate (line : Text) : Bool :=
  line = [] || (asciiFindCaseInsensitive line timeMotLocMarker).isSome
  || tmlStartsNewSectionHeader line && !looksLikeTmlCoordinateLine line

/-- The candidate joined over the lines behind its first one, and the number of them taken. -/
def joinTmlLines (raw : Text) : List Text → Except Panic (Text × Nat)
  | [] => return (raw, 0)
  | line :: rest =>
      let nextLine := trim line
      if endsTmlCandidate nextLine then return (raw, 0)
      else do
        let joined := (if raw = [] then raw else raw ++ [' ']) ++ nextLine
        let parseable ← candidateHasParseablePrefix joined
        if parseable && !hasOddCoordinateTail joined && rest.head?.all (endsTmlCandidate ∘ trim)
        then return (joined, 1)
        else
          let (whole, taken) ← joinTmlLines joined rest
          return (whole, taken + 1)

def collectTimeMotLocCandidate (line : Text) (markerPosition : Nat) (rest : List Text)
    : Except Panic (Option Text × Nat) := do
  let start ← sliceFrom markerPosition line
  let (raw, taken) ← joinTmlLines (trim start) rest
  let parseable ← candidateHasParseablePrefix raw
  return (if parseable then some raw else none, taken)

/-- The candidates of the lines behind those that are already taken. -/
def tmlCandidatesFrom : (taken : Nat) → List Text → Except Panic (List TimeMotLocCandidate)
  | _, [] => return []
  | taken + 1, _ :: rest => tmlCandidatesFrom taken rest
  | 0, line :: rest =>
      match asciiFindCaseInsensitive line timeMotLocMarker with
      | none => tmlCandidatesFrom 0 rest
      | some markerPosition => do
          let (raw, taken) ← collectTimeMotLocCandidate line markerPosition rest
          let later ← tmlCandidatesFrom taken rest
          return (raw.map fun raw => ⟨raw, line, 0 < markerPosition⟩).toList ++ later

def findTimeMotLocCandidates (text : Text) : Except Panic (List TimeMotLocCandidate) :=
  tmlCandidatesFrom 0 (lines text)

/-- What is left behind a marker is shorter. -/
theorem length_of_sliceFrom {start : Nat} {text rest : Text} (positive : start ≠ 0)
    (cut : sliceFrom start text = .ok rest)
    : rest.length < text.length := by
  obtain ⟨front, rfl, size⟩ := sliceFrom_eq_ok_iff.mp cut
  cases front with
  | nil => exact absurd size.symm positive
  | cons c front =>
      rw [List.length_append, List.length_cons]
      omega

/-- The markers of a line, each looked for behind the one before. -/
def countMarkersIn (search : Text) : Except Panic Nat :=
  match asciiFindCaseInsensitive search timeMotLocMarker with
  | none => return 0
  | some position =>
      match cut : sliceFrom (position + 16) search with
      | .error panic => .error panic
      | .ok rest => do
          let count ← countMarkersIn rest
          return count + 1
termination_by search.length
decreasing_by exact length_of_sliceFrom (by omega) cut

def countMarkers (text : Text) : Except Panic Nat :=
  List.sum <$> (lines text).mapM countMarkersIn

-----------------------------------------------------------------------------------------
-- Coordinates
-----------------------------------------------------------------------------------------

section Coordinates

variable {F : Type} [Measure F]

/-- The digits of the whole degrees, where longitudes have three. -/
def degreesDigits (isLat : Bool) : Nat := if isLat then 2 else 3

/-- A coordinate by the number of its bytes, before the sign. -/
def tmlDegrees (digits : Text) (isLat : Bool) : Except Panic (Option F) :=
  let width := degreesDigits isLat
  match utf8Len digits with
  | 4 => do
      match ← sliceMeasure F 0 2 digits with
      | none => return none
      | some degrees =>
          let hundredths ← sliceMeasure F 2 4 digits
          return hundredths.map fun hundredths => degrees + hundredths / (100 : Nat)
  | 5 => do
      match ← sliceMeasure F 0 width digits with
      | none => return none
      | some degrees =>
          let hundredths ← sliceMeasure F width 5 digits
          return hundredths.map fun hundredths => degrees + hundredths / (100 : Nat)
  | 6 => do
      match ← sliceMeasure F 0 width digits with
      | none => return none
      | some degrees =>
          let minutes ← sliceMeasure F width 6 digits
          return minutes.map fun minutes => degrees + minutes / (60 : Nat)
  | 8 => do
      match ← sliceMeasure F 0 width digits with
      | none => return none
      | some degrees =>
          match ← sliceMeasure F width (width + 2) digits with
          | none => return none
          | some wholeMinutes =>
              let hundredths ← sliceMeasure F (width + 2) 8 digits
              return hundredths.map fun hundredths =>
                degrees + (wholeMinutes + hundredths / (100 : Nat)) / (60 : Nat)
  | _ => return none

def tmlParseCoordinate (text : Text) (isLat : Bool) : Except Panic (Option F) := do
  let value ← tmlDegrees ((trim text).dropWhile (· = '-')) isLat
  return value.map fun value => if isLat then value else -value

def readsTml (coord : Text) (isLat : Bool) : Except Panic Bool :=
  Option.isSome <$> tmlParseCoordinate (F := F) coord isLat

/-- A latitude and a longitude of four bytes each in one token. -/
def tmlSplitPackedCoordinatePair (normalized : List Text) (token : Text)
    : Except Panic (Option (Text × Text)) :=
  if utf8Len token ≠ 8 ∨ normalized.length % 2 ≠ 0 then return none
  else do
    let lat ← sliceTo 4 token
    let lon ← sliceFrom 4 token
    if !(← readsTml (F := F) lat true) then return none
    if !(← readsTml (F := F) lon false) then return none
    return some (lat, lon)

/-- The tokens behind those already taken, with coordinates put together again that were split
at a line end.
-/
def normalizeTmlFrom (normalized : List Text)
    : (taken : Nat) → List Text → Except Panic (Option (List Text))
  | _, [] => return some normalized
  | taken + 1, _ :: rest => normalizeTmlFrom normalized taken rest
  | 0, first :: rest =>
      match consumeWords (fun _ => true) [] first rest with
      | none => return none
      | some (token, taken) => do
          match ← tmlSplitPackedCoordinatePair (F := F) normalized token with
          | some (lat, lon) => normalizeTmlFrom (normalized ++ [lat, lon]) taken rest
          | none => normalizeTmlFrom (normalized ++ [token]) taken rest

def tmlIssue (code message : String) (raw : Text) : ProductParseIssue :=
  .new "time_mot_loc_parse" code (quoting message raw) (some raw)

/-- The points of pairs of tokens; a last token without a partner is not looked at. -/
def tmlPoints (raw : Text) : List Text → Except Panic (Except ProductParseIssue (List (F × F)))
  | latToken :: lonToken :: rest => do
      match ← tmlParseCoordinate (F := F) latToken true with
      | none =>
          return .error (tmlIssue "invalid_time_mot_loc_latitude"
            "could not parse TIME...MOT...LOC latitude from line" raw)
      | some lat =>
          match ← tmlParseCoordinate (F := F) lonToken false with
          | none =>
              return .error (tmlIssue "invalid_time_mot_loc_longitude"
                "could not parse TIME...MOT...LOC longitude from line" raw)
          | some lon => do
              let later ← tmlPoints raw rest
              return later.map ((lat, lon) :: ·)
  | _ => return .ok []

/-- The issue of a token that lost its partner. -/
def danglingIssue (dropped raw : Text) : ProductParseIssue :=
  .new "time_mot_loc_parse" "time_mot_loc_truncated_dangling_coordinate"
    ("dropped dangling TIME...MOT...LOC coordinate token `".toList ++ dropped
      ++ "` after source formatting loss".toList)
    (some raw)

/-- The entry of the coordinates behind a readable time, direction and speed. -/
def tmlEntry (raw : Text) (timeUtc : UtcTime) (direction speed : Nat) (tokens : List Text)
    : Except Panic (Except ProductParseIssue (TimeMotLocEntry F × List ProductParseIssue)) := do
  match ← normalizeTmlFrom (F := F) [] 0 tokens with
  | none =>
      return .error (tmlIssue "invalid_time_mot_loc_coordinate_format"
        "could not normalize TIME...MOT...LOC coordinates from line" raw)
  | some coordTokens =>
      let odd := coordTokens.length % 2 ≠ 0
      let issues := if odd then (coordTokens.getLast?.map (danglingIssue · raw)).toList else []
      let coordTokens := if odd then coordTokens.dropLast else coordTokens
      if coordTokens.length < 2 then
        return .error (tmlIssue "invalid_time_mot_loc_coordinate_count"
          "TIME...MOT...LOC line has an invalid coordinate count" raw)
      else do
        let points ← tmlPoints raw coordTokens
        return points.map fun points =>
          (⟨timeUtc, .ofNat direction, .ofNat speed, points, formatLinestringWkt points⟩, issues)

variable (calendar : Calendar)

def parseTimeMotLocCandidate (candidate : TimeMotLocCandidate) (referenceTime : UtcTime)
    : Except Panic (Except ProductParseIssue (TimeMotLocEntry F × List ProductParseIssue)) :=
  let raw := trim candidate.raw
  let invalidFormat :=
    tmlIssue "invalid_time_mot_loc_format" "could not parse TIME...MOT...LOC line" raw
  match splitWhitespace raw with
  | [] => return .error invalidFormat
  | marker :: tokens =>
      if !eqIgnoreAsciiCase marker timeMotLocMarker then return .error invalidFormat
      else
        match tokens with
        | [] => return .error invalidFormat
        | timeToken :: tokens => do
            match ← parseTimeToken calendar timeToken referenceTime with
            | none =>
                return .error (tmlIssue "invalid_time_mot_loc_time"
                  "could not parse TIME...MOT...LOC time from line" raw)
            | some timeUtc =>
                match parseDegreesToken tokens with
                | (none, _) =>
                    return .error (tmlIssue "invalid_time_mot_loc_direction"
                      "could not parse TIME...MOT...LOC direction from line" raw)
                | (some direction, tokens) =>
                    match parseSpeedToken tokens with
                    | (none, _) =>
                        return .error (tmlIssue "invalid_time_mot_loc_speed"
                          "could not parse TIME...MOT...LOC speed from line" raw)
                    | (some speed, tokens) => tmlEntry raw timeUtc direction speed tokens

/-- A marker that does not start its line. -/
def embeddedMarkerIssue (candidate : TimeMotLocCandidate) : List ProductParseIssue :=
  if candidate.markerWasEmbedded then
    [.new "time_mot_loc_parse" "time_mot_loc_poorly_formatted"
      "TIME...MOT...LOC marker was not line-aligned in the source text".toList
      (some candidate.sourceLine)]
  else []

def unmatchedMarkerIssue : ProductParseIssue :=
  .new "time_mot_loc_parse" "time_mot_loc_regex_failed_after_marker"
    "found TIME...MOT...LOC marker but could not match the expected field layout".toList none

/-- What a candidate adds to the entries and to the issues. -/
def tmlOutcome (candidate : TimeMotLocCandidate)
    : Except ProductParseIssue (TimeMotLocEntry F × List ProductParseIssue)
      → List (TimeMotLocEntry F) × List ProductParseIssue
  | .ok (entry, issues) => ([entry], embeddedMarkerIssue candidate ++ issues)
  | .error issue => ([], embeddedMarkerIssue candidate ++ [issue])

def parseTimeMotLocEntriesWithIssues (text : Text) (referenceTime : UtcTime)
    : Except Panic (List (TimeMotLocEntry F) × List ProductParseIssue) := do
  let markerCount ← countMarkers text
  let candidates ← findTimeMotLocCandidates text
  let outcomes ← candidates.mapM fun candidate =>
    tmlOutcome candidate <$> parseTimeMotLocCandidate calendar candidate referenceTime
  return (outcomes.flatMap Prod.fst,
    outcomes.flatMap Prod.snd
    ++ if candidates.length < markerCount then [unmatchedMarkerIssue] else [])

end Coordinates

end Emwin.Parser
