import Emwin.Library.Integers
import Emwin.Library.Tokens
import Emwin.Parser.Instants

/-! MOS guidance bulletins: sections, their hour axis and their rows of values. -/

namespace Emwin.Parser
open Library

-----------------------------------------------------------------------------------------
-- Times
-----------------------------------------------------------------------------------------

/-- `DateTime + TimeDelta`, which panics outside of the calendar. -/
def addTime (time : UtcTime) (delta : Int) : Except Panic UtcTime :=
  if KnownYear (dateOf (time + delta)).year then .ok (time + delta) else .error .overflow

/-- `DateTime::with_hour`. -/
def withHour (time : UtcTime) (hour : Nat) : Option UtcTime :=
  if hour < 24 then some (time - hourOf time * hourLength + hour * hourLength) else none

/-- What the product parsers use of the texts of times of the `chrono` crate. -/
structure TimeTexts where
  parseRfc3339 : Text → Option UtcTime
  toRfc3339 : UtcTime → Text

-----------------------------------------------------------------------------------------
-- Sections
-----------------------------------------------------------------------------------------

structure MosForecastRow where
  valid : Text
  values : OrderedMap Text Text

structure MosSection where
  station : Text
  model : Text
  runtime : Text
  forecasts : List MosForecastRow

structure SectionHeader where
  station : Text
  model : Text
  mosName : Text
  month : Nat
  day : Nat
  year : Int
  hhmm : Text
  deriving DecidableEq, Repr

def sanitizeSectionLine (line : Text) : Text :=
  trim (line.dropWhile fun c => !c.isAlphanum && !isAsciiWhitespace c && c != '.')

def remapVar (name : Text) : Text :=
  if name = "X_N".toList then "N_X".toList
  else if name = "WND".toList then "WSP".toList
  else if name = "WGS".toList then "GST".toList
  else name

/-- The date of a section header, as `month/day/year`. -/
def parseHeaderDate (date : Text) : Option (Nat × Nat × Int) :=
  match date.splitOn '/' with
  | [month, day, year] => do
      let month ← parseUnsigned (2 ^ 8) month
      let day ← parseUnsigned (2 ^ 8) day
      let year ← parseSigned (2 ^ 31) year
      return (month, day, year)
  | _ => none

/-- What stands behind the name of the model, from the place of the name on. -/
def parseHeaderRest (station model mosName : Text) (rest : List Text) : Option SectionHeader := do
  let guidance ← rest[0]?
  guard (guidance = "GUIDANCE".toList)
  let date ← rest[1]?
  let hhmm ← rest[2]?
  let utc ← rest[3]?
  guard (utc = "UTC".toList ∧ utf8Len hhmm = 4)
  let (month, day, year) ← parseHeaderDate date
  return { station, model, mosName, month, day, year, hhmm }

def parseSectionHeader (line : Text) : Option SectionHeader := do
  let tokens := splitWhitespace line
  let station ← tokens[0]?
  let model ← tokens[1]?
  let name ← tokens[2]?
  if name.head? = some 'V' then
    let mosName ← tokens[3]?
    parseHeaderRest station model mosName (tokens.drop 4)
  else parseHeaderRest station model name (tokens.drop 3)

/-- The model as the section reports it. -/
def SectionHeader.modelName (header : SectionHeader) : Text :=
  if header.mosName = "LAMP".toList then "LAV".toList
  else if header.model = "GFSX".toList then "MEX".toList
  else if header.model = "NBM".toList then
    if header.mosName = "NBX".toList then "NBE".toList else header.mosName
  else header.model

/-- The start of the model run, as a text; the hour is cut out of a clock reading. -/
def SectionHeader.runtime (header : SectionHeader) : Except Panic Text := do
  let hour ← sliceTo 2 header.hhmm
  return signedDigits header.year ++ '-' :: twoDigits header.month
    ++ '-' :: twoDigits header.day ++ 'T' :: hour ++ ":00:00Z".toList

-----------------------------------------------------------------------------------------
-- The hour axis
-----------------------------------------------------------------------------------------

/-- The labels of an axis, in the order in which they are looked for. -/
def axisLabels : List Text := ["FHR".toList, "HR".toList, "UTC".toList]

/-- The label and the place of the axis. -/
def findAxis (lines : List Text) : Option (Text × Nat) :=
  axisLabels.findSome? fun label =>
    (lines.findIdx? fun line => label.isPrefixOf (trimStart line)).map fun index => (label, index)

def isAxisSeparator (c : Char) : Bool := isAsciiWhitespace c || c = '|'

/-- The models whose axis counts the hours from the start of the run. -/
def countsHours (label model : Text) : Bool :=
  label ≠ "UTC".toList
  && (model = "LAV".toList || model = "MEX".toList || model = "NBE".toList || model = "NBS".toList)

/-- The time of one column of the axis, from the times of the columns before it. -/
def axisTime (counts : Bool) (init : UtcTime) (times : List UtcTime) (hour : Text)
    : Except Panic (Option UtcTime) :=
  if counts then
    match parseUnsigned (2 ^ 32) hour with
    | none => return none
    | some hours => return some (← addTime init (hours * hourLength))
  else if hour = "00".toList ∧ 0 < times.length then
    match times.getLast? with
    | none => return none
    | some prev => return some (← addTime prev (((24 - hourOf prev) % 24 : Nat) * hourLength))
  else
    match (parseUnsigned (2 ^ 32) hour).bind (withHour init) with
    | none => return none
    | some ts =>
        if times.getLast?.any fun last => ts ≤ last then return some (← addTime ts dayLength)
        else return some ts

/-- The times of the columns that are left. -/
def axisTimesFrom (counts : Bool) (init : UtcTime) (times : List UtcTime)
    : List Text → Except Panic (Option (List UtcTime))
  | [] => .ok (some times)
  | hour :: hours => do
      match ← axisTime counts init times hour with
      | none => return none
      | some ts => axisTimesFrom counts init (times ++ [ts]) hours

/-- The hours of an axis: the label is skipped, and the empty pieces between separators. -/
def axisHours (line : Text) : List Text :=
  ((line.splitOnP isAxisSeparator).drop 1).filter (· ≠ [])

/-- The times of the columns, and the lines behind the axis. -/
def parseHourAxis (lines : List Text) (model : Text) (init : UtcTime)
    : Except Panic (Option (List UtcTime × List Text)) :=
  match findAxis lines with
  | none => return none
  | some (label, index) => do
      let hours := axisHours (lines.getD index [])
      match ← axisTimesFrom (countsHours label model) init [] hours with
      | none => return none
      | some times => return some (times, lines.drop (index + 1))

-----------------------------------------------------------------------------------------
-- Rows
-----------------------------------------------------------------------------------------

/-- What a data line puts into the forecast rows: the place of a row, the name and the value. -/
def lineValues (count : Nat) (line : Text) : Except Panic (List (Nat × Text × Text)) := do
  if utf8Len line < 3 then return []
  let front ← sliceTo 3 line
  let name := remapVar ((trim front).map fun c => if c = '/' then '_' else c)
  if name = [] then return []
  let rest ← sliceFrom 3 line
  return ((splitWhitespace rest).zipIdx.filter fun (_, idx) => idx < count).map
    fun (value, idx) => (idx, name, value)

/-- `forecast.values.insert` for the forecast row at a place. -/
def putValue (forecasts : List MosForecastRow) (put : Nat × Text × Text) : List MosForecastRow :=
  forecasts.modify put.1 fun forecast =>
    { forecast with values := forecast.values.alter put.2.1 fun _ => put.2.2 }

/-- The loop over the data lines. -/
def fillForecasts (forecasts : List MosForecastRow)
    : List Text → Except Panic (List MosForecastRow)
  | [] => .ok forecasts
  | line :: rest => do
      let values ← lineValues forecasts.length line
      fillForecasts (values.foldl putValue forecasts) rest

variable (texts : TimeTexts)

def parseSection (mosSection : Text) : Except Panic (Option MosSection) := do
  let lines := lines mosSection
  match lines.head?.bind fun first => parseSectionHeader (sanitizeSectionLine first) with
  | none => return none
  | some header =>
      let runtime ← header.runtime
      match texts.parseRfc3339 runtime with
      | none => return none
      | some init =>
          match ← parseHourAxis lines header.modelName init with
          | none => return none
          | some (times, dataLines) =>
              let empty := times.map fun ts => { valid := texts.toRfc3339 ts, values := {} }
              let forecasts ← fillForecasts empty dataLines
              return some
                { station := header.station, model := header.modelName, runtime, forecasts }

end Emwin.Parser
