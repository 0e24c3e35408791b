import Emwin.Parser.Compaction

/-! Aerodrome forecasts: the header, conditions by their tokens, and change groups by their
markers.
-/

namespace Emwin.Parser
open Library

structure TafWind where
  directionDegrees : Option Nat
  speedKt : Nat
  gustKt : Option Nat
  isVariable : Bool
  deriving DecidableEq, Repr

structure TafSkyCondition where
  cover : Text
  heightFtAgl : Option Nat
  deriving DecidableEq, Repr

structure TafWindShear where
  heightFtAgl : Nat
  directionDegrees : Nat
  speedKt : Nat
  deriving DecidableEq, Repr

structure TafConditions where
  wind : Option TafWind := none
  visibility : Option Text := none
  weather : List Text := []
  skyConditions : List TafSkyCondition := []
  windShear : Option TafWindShear := none
  deriving DecidableEq, Repr

inductive TafForecastGroupKind where
  | fm
  | tempo
  | prob
  | becmg
  deriving DecidableEq, Repr

structure TafForecastGroup where
  changeKind : TafForecastGroupKind
  validFrom : Option Text
  validTo : Option Text
  probabilityPercent : Option Nat
  conditions : TafConditions
  raw : Text
  deriving DecidableEq, Repr

structure TafBulletin where
  station : Text
  issueTime : Text
  validFrom : Option Text
  validTo : Option Text
  amendment : Bool
  correction : Bool
  initialConditions : TafConditions
  groups : List TafForecastGroup
  raw : Text
  deriving DecidableEq, Repr

-----------------------------------------------------------------------------------------
-- Preambles
-----------------------------------------------------------------------------------------

/-- What a report is; it is never both amended and corrected. -/
structure Preamble where
  amendment : Bool
  correction : Bool
  single : (amendment && correction) = false := by rfl
  deriving DecidableEq, Repr

def Preamble.normalizedPrefix (preamble : Preamble) : Text :=
  if preamble.amendment then "TAF AMD".toList
  else if preamble.correction then "TAF COR".toList
  else "TAF".toList

def routinePreamble : Preamble where
  amendment := false
  correction := false

def amendedPreamble : Preamble where
  amendment := true
  correction := false

def correctedPreamble : Preamble where
  amendment := false
  correction := true

def stripLeadingMarkerLine (text : Text) : Text :=
  match splitOnce ' ' text with
  | none => text
  | some (first, rest) =>
      if 3 < utf8Len first ∧ "TAF".toList <+: first
          ∧ first.all (fun ch => ch.isUpper || ch.isDigit) ∧ "TAF".toList <+: rest then
        rest
      else text

/-- The prefixes in the order in which they are tried. -/
def tafPrefixes : List (Text × Preamble) :=
  [("TAF TAF AMD".toList, amendedPreamble), ("TAF TAF COR".toList, correctedPreamble),
    ("TAF AMD TAF AMD".toList, amendedPreamble), ("TAF COR TAF COR".toList, correctedPreamble),
    ("TAF AMD TAF".toList, amendedPreamble), ("TAF COR TAF".toList, correctedPreamble),
    ("TAF TAF".toList, routinePreamble), ("TAF AMD".toList, amendedPreamble),
    ("TAF COR".toList, correctedPreamble), ("TAF".toList, routinePreamble)]

/-- The preamble, and what stands behind it and a blank. -/
def parseTafPrefix (input : Text) : Option (Preamble × Text) :=
  (tafPrefixes.find? fun (literal, _) => literal <+: input).map fun (literal, preamble) =>
    let rest := input.drop literal.length
    (preamble, if rest.head? = some ' ' then rest.tail else rest)

-----------------------------------------------------------------------------------------
-- Tokens
-----------------------------------------------------------------------------------------

/-- The token in front of the next blank, and the input behind that. -/
def nextToken (input : Text) : Option (Text × Text) :=
  if input = [] then none
  else
    match splitOnce ' ' input with
    | some (token, rest) => some (token, rest)
    | none => some (input, [])

def isStationToken (token : Text) : Bool :=
  3 ≤ utf8Len token && utf8Len token ≤ 4 && token.all Char.isAlphanum

/-- Six digits and a `Z`; in front of that last byte stand the first six. -/
def isIssueTimeToken (token : Text) : Bool :=
  utf8Len token = 7 && token.getLast? = some 'Z' && token.dropLast.all Char.isDigit

def parseValidityRange (token : Text) : Option (Text × Text) := do
  let (validFrom, validTo) ← splitOnce '/' token
  guard
    (utf8Len validFrom = 4 ∧ utf8Len validTo = 4 ∧ validFrom.all Char.isDigit
      ∧ validTo.all Char.isDigit)
  return (validFrom, validTo)

def isGroupMarker (token : Text) : Bool :=
  "FM".toList <+: token || token = "TEMPO".toList || token = "BECMG".toList
  || "PROB30".toList <+: token || "PROB40".toList <+: token

/-- Speed and gust behind the direction of the wind. -/
def windBehind (directionDegrees : Option Nat) (isVariable : Bool) (remainder : Text)
    : Option TafWind :=
  match splitOnce 'G' remainder with
  | some (speed, gust) => do
      let speedKt ← parseUnsigned (2 ^ 16) speed
      let gustKt ← parseUnsigned (2 ^ 16) gust
      return { directionDegrees, speedKt, gustKt := some gustKt, isVariable }
  | none => do
      let speedKt ← parseUnsigned (2 ^ 16) remainder
      return { directionDegrees, speedKt, gustKt := none, isVariable }

def parseTafWind (token : Text) : Except Panic (Option TafWind) :=
  match stripSuffix "KT".toList token with
  | none => return none
  | some core =>
      match stripPrefix "VRB".toList core with
      | some rest => return windBehind none true rest
      | none =>
          if utf8Len core < 5 then return none
          else do
            let direction ← sliceTo 3 core
            let rest ← sliceFrom 3 core
            if direction.all Char.isDigit then
              return (parseUnsigned (2 ^ 16) direction).bind fun directionDegrees =>
                windBehind (some directionDegrees) false rest
            else return none

def isTafVisibilityToken (token : Text) : Bool :=
  token = "CAVOK".toList || token = "9999".toList || "SM".toList <:+ token
  || (token.head? = some 'P' && "SM".toList <:+ token)

def parseWindShear (token : Text) : Except Panic (Option TafWindShear) :=
  match (stripPrefix "WS".toList token).bind (splitOnce '/') with
  | none => return none
  | some (height, wind) =>
      if utf8Len height ≠ 3 then return none
      else
        match parseUnsigned (2 ^ 32) height, stripSuffix "KT".toList wind with
        | some hundreds, some wind =>
            if utf8Len wind ≠ 5 then return none
            else do
              let direction ← sliceTo 3 wind
              match parseUnsigned (2 ^ 16) direction with
              | none => return none
              | some directionDegrees => do
                  let speed ← sliceFrom 3 wind
                  return (parseUnsigned (2 ^ 16) speed).map fun speedKt =>
                    { heightFtAgl := min (hundreds * 100) (2 ^ 32 - 1), directionDegrees, speedKt }
        | _, _ => return none

def tafCovers : List Text :=
  ["SKC", "NSC", "FEW", "SCT", "BKN", "OVC", "VV0"].map String.toList

/-- The height of a cover in hundreds of feet, if three digits stand for it. -/
def coverHeight (token : Text) : Option Nat :=
  (((getSlice 3 6 token).filter fun digits => digits.all Char.isDigit).bind
    (parseUnsigned (2 ^ 32))).map fun height => height * 100

def parseTafSkyCondition (token : Text) : Option TafSkyCondition := do
  let cover ← getSlice 0 3 token
  guard (cover ∈ tafCovers)
  return { cover, heightFtAgl := coverHeight token }

def isTafWeatherToken (token : Text) : Bool :=
  let trimmed := trimMatches '-' (trimMatches '+' token)
  2 ≤ utf8Len trimmed && utf8Len trimmed ≤ 8 && trimmed.all Char.isUpper
  && trimmed ∉ ["RMK", "AMD", "COR", "TX", "TN", "QNH"].map String.toList
  && !("QNH".toList <+: trimmed)

-----------------------------------------------------------------------------------------
-- Conditions
-----------------------------------------------------------------------------------------

/-- What one token adds to the conditions. -/
def addTafToken (conditions : TafConditions) (token : Text) : Except Panic TafConditions := do
  let wind ← if conditions.wind.isNone then parseTafWind token else pure none
  match wind with
  | some wind => return { conditions with wind := some wind }
  | none =>
      if conditions.visibility.isNone && isTafVisibilityToken token then
        return { conditions with visibility := some token }
      else do
        let shear ← if conditions.windShear.isNone then parseWindShear token else pure none
        match shear with
        | some shear => return { conditions with windShear := some shear }
        | none =>
            match parseTafSkyCondition token with
            | some sky =>
                return { conditions with skyConditions := conditions.skyConditions ++ [sky] }
            | none =>
                if isTafWeatherToken token then
                  return { conditions with weather := conditions.weather ++ [token] }
                else return conditions

def parseConditions (tokens : List Text) : Except Panic TafConditions :=
  tokens.foldlM addTafToken {}

-----------------------------------------------------------------------------------------
-- Groups
-----------------------------------------------------------------------------------------

/-- The kind of a group, its validity, its probability, and the tokens of its conditions. -/
structure GroupHeader where
  changeKind : TafForecastGroupKind
  validFrom : Text
  validTo : Option Text
  probabilityPercent : Option Nat
  body : List Text

/-- What stands in front of the conditions of a group. -/
def parseGroupHeader : List Text → Option GroupHeader
  | [] => none
  | first :: rest =>
      match stripPrefix "FM".toList first with
      | some start =>
          if utf8Len start = 6 ∧ start.all Char.isDigit then
            some ⟨.fm, start.take 4, none, none, rest⟩
          else none
      | none =>
          if first = "TEMPO".toList ∨ first = "BECMG".toList then do
            let validity ← rest.head?
            let (validFrom, validTo) ← parseValidityRange validity
            let changeKind := if first = "TEMPO".toList then .tempo else .becmg
            return ⟨changeKind, validFrom, some validTo, none, rest.tail⟩
          else do
            let probability ← stripPrefix "PROB".toList first
            let probabilityPercent ← parseUnsigned (2 ^ 8) probability
            let validity ← rest.head?
            let (validFrom, validTo) ← parseValidityRange validity
            return ⟨.prob, validFrom, some validTo, some probabilityPercent, rest.tail⟩

def parseGroup (tokens : List Text) : Except Panic (Option TafForecastGroup) :=
  match parseGroupHeader tokens with
  | none => return none
  | some header => do
      let conditions ← parseConditions header.body
      return some
        { changeKind := header.changeKind
          validFrom := some header.validFrom
          validTo := header.validTo
          probabilityPercent := header.probabilityPercent
          conditions
          raw := joinWords header.body }

/-- The tokens from each group marker on; a marker does not cut in front of the first token. -/
def cutAtMarkers (tokens : List Text) : List (List Text) :=
  let (segments, current) := tokens.foldl
    (fun (segments, current) token =>
      if isGroupMarker token ∧ current ≠ [] then (segments ++ [current], [token])
      else (segments, current ++ [token]))
    (([] : List (List Text)), ([] : List Text))
  if current ≠ [] then segments ++ [current] else segments

def parseForecastGroups (remainder : Text)
    : Except Panic (TafConditions × List TafForecastGroup) :=
  if remainder = [] then return ({}, [])
  else do
    let segments := cutAtMarkers (splitWhitespace remainder)
    let initial ← (segments.head?.map parseConditions).getD (return {})
    let groups ← (segments.drop 1).mapM parseGroup
    return (initial, groups.filterMap id)

-----------------------------------------------------------------------------------------
-- Bulletins
-----------------------------------------------------------------------------------------

def looksLikeStationLedTafReport (text : Text) : Bool :=
  match splitWhitespace text with
  | station :: issueTime :: _ => isStationToken station && isIssueTimeToken issueTime
  | _ => false

/-- The preamble of a report and the report behind it. -/
def tafPreamble (input : Text) : Option (Preamble × Text) :=
  match parseTafPrefix input with
  | some parsed => some parsed
  | none =>
      if looksLikeStationLedTafReport input then some (routinePreamble, input) else none

def parseTafBulletin (text : Text) : Except Panic (Option TafBulletin) :=
  let compact := compactAsciiWhitespace text
  match tafPreamble (stripLeadingMarkerLine compact) with
  | none => return none
  | some (preamble, reportBody) =>
      match nextToken reportBody with
      | none => return none
      | some (station, input) =>
          match nextToken input with
          | none => return none
          | some (issueTime, input) =>
              if !isStationToken station || !isIssueTimeToken issueTime then return none
              else do
                let validity := (nextToken input).bind fun (token, _) => parseValidityRange token
                let input := ((nextToken input).map Prod.snd).getD input
                let (initialConditions, groups) ← parseForecastGroups (trim input)
                return some
                  { station
                    issueTime
                    validFrom := validity.map Prod.fst
                    validTo := validity.map Prod.snd
                    amendment := preamble.amendment
                    correction := preamble.correction
                    initialConditions
                    groups
                    raw :=
                      if reportBody = [] then preamble.normalizedPrefix
                      else preamble.normalizedPrefix ++ ' ' :: reportBody }

end Emwin.Parser
