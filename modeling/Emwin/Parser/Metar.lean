import Emwin.Library.Integers
import Emwin.Parser.Compaction

/-! Aviation weather reports: collectives, report headers, and the tokens of a report. -/

namespace Emwin.Parser
open Library

inductive MetarReportKind where
  | metar
  | speci
  deriving DecidableEq, Repr

structure MetarWind where
  directionDegrees : Option Nat
  speedKt : Nat
  gustKt : Option Nat
  isVariable : Bool
  deriving DecidableEq, Repr

structure MetarSkyCondition where
  cover : Text
  heightFtAgl : Option Nat
  modifier : Option Text
  deriving DecidableEq, Repr

structure MetarReport where
  kind : MetarReportKind
  station : Text
  observationTime : Text
  correction : Bool
  wind : Option MetarWind := none
  visibility : Option Text := none
  weather : List Text := []
  skyConditions : List MetarSkyCondition := []
  temperatureC : Option Int := none
  dewpointC : Option Int := none
  altimeter : Option Text := none
  remarks : Option Text := none
  raw : Text
  deriving DecidableEq, Repr

structure MetarBulletin where
  reports : List MetarReport
  deriving DecidableEq, Repr

-----------------------------------------------------------------------------------------
-- Segments
-----------------------------------------------------------------------------------------

/-- Control characters that are no whitespace are dropped. -/
def isDropped (c : Char) : Bool := isAsciiControl c && !isAsciiWhitespace c

def pushNormalized (normalized : Text × Bool) (ch : Char) : Text × Bool :=
  if isDropped ch then normalized else pushCompacted normalized ch

/-- Whitespace compacted, none at the ends. -/
def normalizeMetarSegment (segment : Text) : Text :=
  (segment.foldl pushNormalized ([], false)).1

-----------------------------------------------------------------------------------------
-- Tokens
-----------------------------------------------------------------------------------------

/-- Speed and gust behind the direction of the wind. -/
def metarWindBehind (directionDegrees : Option Nat) (isVariable : Bool) (remainder : Text)
    : Option MetarWind :=
  match splitOnce 'G' remainder with
  | some (speed, gust) => do
      let speedKt ← parseUnsigned (2 ^ 16) speed
      let gustKt ← parseUnsigned (2 ^ 16) gust
      return { directionDegrees, speedKt, gustKt := some gustKt, isVariable }
  | none => do
      let speedKt ← parseUnsigned (2 ^ 16) remainder
      return { directionDegrees, speedKt, gustKt := none, isVariable }

def parseMetarWind (token : Text) : Except Panic (Option MetarWind) :=
  match stripSuffix "KT".toList token with
  | none => return none
  | some core =>
      match stripPrefix "VRB".toList core with
      | some rest => return metarWindBehind none true rest
      | none =>
          if utf8Len core < 5 then return none
          else do
            let direction ← sliceTo 3 core
            let rest ← sliceFrom 3 core
            return (parseUnsigned (2 ^ 16) direction).bind fun directionDegrees =>
              metarWindBehind (some directionDegrees) false rest

def isMetarVisibilityToken (token : Text) : Bool :=
  token = "CAVOK".toList || token = "9999".toList || token = "9999NDV".toList
  || "SM".toList <:+ token || (token.all Char.isDigit && utf8Len token = 4)

/-- Behind the first byte stand digits; the byte is a character of its own. -/
def isAltimeterToken (token : Text) : Bool :=
  ((token.head? = some 'Q' && utf8Len token = 5) || (token.head? = some 'A' && utf8Len token = 5))
  && token.tail.all Char.isDigit

def isMetarWeatherToken (token : Text) : Bool :=
  let trimmed := trimMatches '-' (trimMatches '+' token)
  2 ≤ utf8Len trimmed && utf8Len trimmed ≤ 8 && trimmed.all Char.isUpper
  && !isAltimeterToken trimmed
  && trimmed ∉ ["AUTO", "NOSIG", "RMK", "COR", "AO1", "AO2", "CLR", "SKC"].map String.toList

def metarCovers : List Text :=
  ["SKC", "CLR", "FEW", "SCT", "BKN", "OVC", "VV0", "VV/"].map String.toList

/-- `token.get(start..)`. -/
def getFrom (start : Nat) (text : Text) : Option Text := (splitOff start text).map Prod.snd

def parseMetarSkyCondition (token : Text) : Option MetarSkyCondition := do
  let cover ← getSlice 0 3 token
  guard (cover ∈ metarCovers)
  let digits := (getSlice 3 6 token).filter fun digits => digits.all Char.isDigit
  return {
    cover
    heightFtAgl := (digits.bind (parseUnsigned (2 ^ 32))).map fun height => height * 100
    modifier := (getFrom 6 token).filter fun suffix => suffix ≠ [] }

def parseSignedTemperature (token : Text) : Option Int := do
  guard (token ≠ [] ∧ token ≠ "//".toList ∧ '/' ∉ token)
  let digits := (token.dropWhile (· = 'M')).dropWhile (· = '-')
  let value ← parseSigned (2 ^ 15) digits
  return if token.head? = some 'M' ∨ token.head? = some '-' then -value else value

def parseTemperaturePair (token : Text) : Option (Int × Option Int) := do
  let (temperature, dewpoint) ← splitOnce '/' token
  let temperatureC ← parseSignedTemperature temperature
  return (temperatureC, parseSignedTemperature dewpoint)

def isMetarStation (token : Text) : Bool :=
  utf8Len token = 4 && token.head?.any Char.isUpper && token.all Char.isAlphanum

/-- Six digits and a `Z`; in front of that last byte stand the first six. -/
def isObservationTime (token : Text) : Bool :=
  utf8Len token = 7 && token.getLast? = some 'Z' && token.dropLast.all Char.isDigit

-----------------------------------------------------------------------------------------
-- Reports
-----------------------------------------------------------------------------------------

/-- What was read of a report so far. -/
structure MetarBody where
  wind : Option MetarWind := none
  visibility : Option Text := none
  weather : List Text := []
  skyConditions : List MetarSkyCondition := []
  temperatureC : Option Int := none
  dewpointC : Option Int := none
  altimeter : Option Text := none
  remarksTokens : List Text := []
  inRemarks : Bool := false
  deriving DecidableEq, Repr

/-- What a token adds that is no wind. -/
def addCalmToken (body : MetarBody) (token : Text) : MetarBody :=
  if body.visibility.isNone && isMetarVisibilityToken token then
    { body with visibility := some token }
  else
    match
      if body.temperatureC.isNone && body.dewpointC.isNone then parseTemperaturePair token
      else none
    with
    | some (temperature, dewpoint) =>
        { body with temperatureC := some temperature, dewpointC := dewpoint }
    | none =>
        if body.altimeter.isNone && isAltimeterToken token then
          { body with altimeter := some token }
        else
          match parseMetarSkyCondition token with
          | some condition => { body with skyConditions := body.skyConditions ++ [condition] }
          | none =>
              if isMetarWeatherToken token then { body with weather := body.weather ++ [token] }
              else body

/-- What a token adds with the wind that it was read as. -/
def addGroup (body : MetarBody) (token : Text) : Option MetarWind → MetarBody
  | some wind => { body with wind := some wind }
  | none => addCalmToken body token

/-- What one token adds to a report. -/
def addMetarToken (body : MetarBody) (token : Text) : Except Panic MetarBody :=
  if token = "COR".toList then return body
  else if body.inRemarks then
    return { body with remarksTokens := body.remarksTokens ++ [token] }
  else if token = "RMK".toList then return { body with inRemarks := true }
  else if body.wind.isNone then addGroup body token <$> parseMetarWind token
  else return addGroup body token none

/-- The report of a station, from its time of observation on; `raw` is the whole segment. -/
def parseMetarBody (kind : MetarReportKind) (station : Text) (bodyTokens : List Text)
    (correction : Bool) (raw : Text)
    : Except Panic (Option MetarReport) :=
  match bodyTokens with
  | [] => return none
  | observationTime :: tokens =>
      if !isMetarStation station || !isObservationTime observationTime then return none
      else do
        let body ← tokens.foldlM addMetarToken {}
        return some
          { kind
            station
            observationTime
            correction
            wind := body.wind
            visibility := body.visibility
            weather := body.weather
            skyConditions := body.skyConditions
            temperatureC := body.temperatureC
            dewpointC := body.dewpointC
            altimeter := body.altimeter
            remarks :=
              if body.remarksTokens ≠ [] then some (joinWords body.remarksTokens) else none
            raw }

/-- The kind of a report, the tokens behind it, and a station that is written right behind it. -/
def findMetarStart : List Text → Option (MetarReportKind × List Text × Option Text)
  | [] => none
  | token :: rest =>
      if token = "METAR".toList then some (.metar, rest, none)
      else if token = "SPECI".toList then some (.speci, rest, none)
      else
        match (stripPrefix "METAR".toList token).filter isMetarStation with
        | some station => some (.metar, rest, some station)
        | none =>
            match (stripPrefix "SPECI".toList token).filter isMetarStation with
            | some station => some (.speci, rest, some station)
            | none => findMetarStart rest

/-- A report behind its station, or behind a mark that it is a correction. -/
def parseMetarStation (kind : MetarReportKind) (station : Text) (tokens : List Text) (raw : Text)
    : Except Panic (Option MetarReport) :=
  if station = "COR".toList then
    match tokens with
    | [] => return none
    | next :: tokens =>
        if !isMetarStation next then return none else parseMetarBody kind next tokens true raw
  else parseMetarBody kind station tokens false raw

def parseMetarReportRef (segment : Text) : Except Panic (Option MetarReport) :=
  match findMetarStart (segment.splitOnP (· = ' ')) with
  | none => return none
  | some (kind, tokens, inlineStation) =>
      let (station, tokens) := match inlineStation with
        | some station => (station, tokens)
        | none => (tokens.headD [], tokens.tail)
      if station = [] then return none else parseMetarStation kind station tokens segment

def parseBareMetarReportRef (segment : Text) (kind : MetarReportKind)
    : Except Panic (Option MetarReport) :=
  match segment.splitOnP (· = ' ') with
  | [] => return none
  | station :: tokens => parseMetarStation kind station tokens segment

def isSaStation (token : Text) : Bool :=
  3 ≤ utf8Len token && utf8Len token ≤ 4 && token.all Char.isUpper

def parseSurfaceSaReportRef (segment : Text) : Option MetarReport :=
  match splitWhitespace segment with
  | station :: reportMarker :: hhmm :: _ =>
      if !isSaStation station ∨ reportMarker ≠ "SA".toList ∨ utf8Len hhmm ≠ 4 then none
      else some
        { kind := .metar
          station
          observationTime := hhmm ++ "00Z".toList
          correction := false
          raw := segment }
  | _ => none

-----------------------------------------------------------------------------------------
-- Collectives
-----------------------------------------------------------------------------------------

/-- What was read of a collective so far. -/
structure MetarCollective where
  reports : List MetarReport := []
  issues : List ProductParseIssue := []
  collectiveKind : Option MetarReportKind := none
  deriving DecidableEq

def invalidMetarReport (normalized : Text) : ProductParseIssue :=
  .new "metar_parse" "invalid_metar_report"
    "could not parse METAR/SPECI report from bulletin token".toList (some normalized)

/-- One segment more. -/
def addMetarSegment (collective : MetarCollective) (segment : Text)
    : Except Panic MetarCollective :=
  let normalized := normalizeMetarSegment segment
  if normalized = [] then return collective
  else if normalized = "METAR".toList then
    return { collective with collectiveKind := some .metar }
  else if normalized = "SPECI".toList then
    return { collective with collectiveKind := some .speci }
  else do
    match ← parseMetarReportRef normalized with
    | some parsed =>
        return { collective with
          collectiveKind := some parsed.kind
          reports := collective.reports ++ [parsed] }
    | none =>
        match parseSurfaceSaReportRef normalized with
        | some parsed =>
            return { collective with
              collectiveKind := some .metar
              reports := collective.reports ++ [parsed] }
        | none =>
            let bare ← match collective.collectiveKind with
              | some kind => parseBareMetarReportRef normalized kind
              | none => pure none
            match bare with
            | some parsed => return { collective with reports := collective.reports ++ [parsed] }
            | none =>
                if "METAR".toList <:+: normalized ∨ "SPECI".toList <:+: normalized then
                  return { collective with
                    issues := collective.issues ++ [invalidMetarReport normalized] }
                else return collective

def parseMetarBulletin (text : Text)
    : Except Panic (Option (MetarBulletin × List ProductParseIssue)) := do
  let content := normalizeMetarSegment text
  let collective ← (content.splitOnP (· = '=')).foldlM addMetarSegment {}
  return if collective.reports ≠ [] then some (⟨collective.reports⟩, collective.issues) else none

end Emwin.Parser
