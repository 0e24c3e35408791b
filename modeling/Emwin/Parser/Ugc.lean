import Emwin.Parser.Time

/-! Universal geographic codes: blocks of lines with shorthand for states and ranges, closed by
an expiration time.
-/

namespace Emwin.Parser
open Library

inductive UgcClass where
  | county | zone | fireZone | marine | unknown
  deriving DecidableEq, Repr

namespace UgcClass

def fromChar (c : Char) : UgcClass :=
  if c = 'C' then .county
  else if c = 'Z' then .zone
  else if c = 'F' then .fireZone
  else if c = 'M' then .marine
  else .unknown

def asChar : UgcClass → Char
  | .county => 'C'
  | .zone => 'Z'
  | .fireZone => 'F'
  | .marine => 'M'
  | .unknown => 'Z'

end UgcClass

structure UgcCode where
  state : Text
  geoclass : UgcClass
  number : Nat
  deriving DecidableEq, Repr

/-- What is used of a catalog entry for a county or a zone. -/
structure UgcLocationEntry (F : Type) where
  name : Text
  latitude : F
  longitude : F
  deriving DecidableEq, Repr

/-- The generated catalogs of counties, zones and river gauges. -/
structure Locations (F : Type) where
  ugcCountyEntry : Text → Option (UgcLocationEntry F)
  ugcZoneEntry : Text → Option (UgcLocationEntry F)
  nwslidEntry : Text → Option (NwslidEntry F)

-----------------------------------------------------------------------------------------
-- Sections
-----------------------------------------------------------------------------------------

section Sections

variable {F : Type} (locations : Locations F)

/-- A number with at least three digits. -/
def threeDigits (number : Nat) : Text := (Nat.toDigits 10 number).leftpad 3 '0'

def buildArea (code : UgcCode) (lookup : Option (Text → Option (UgcLocationEntry F)))
    : UgcArea F :=
  let canonical := code.state ++ code.geoclass.asChar :: threeDigits code.number
  let entry := lookup.bind (· canonical)
  { id := .ofNat code.number
    name := entry.map (·.name)
    lat := entry.map (·.latitude)
    lon := entry.map (·.longitude) }

def marineZoneStates : List Text :=
  ["AM", "AN", "GM", "LC", "LE", "LH", "LM", "LO", "LS", "PH", "PK", "PM", "PS", "PZ", "SL"].map
    String.toList

def isMarineZoneState (state : Text) : Bool := state ∈ marineZoneStates

/-- An area added behind those of its state. -/
def pushArea (bucket : UgcBucket F) (state : Text) (area : UgcArea F) : UgcBucket F :=
  bucket.alter state fun areas => areas.getD [] ++ [area]

namespace UgcSection

/-- One code put into the bucket of its class. -/
def addCode (ugcSection : UgcSection F) (code : UgcCode) : UgcSection F :=
  match code.geoclass with
  | .county =>
      let area := buildArea code (some locations.ugcCountyEntry)
      { ugcSection with counties := pushArea ugcSection.counties code.state area }
  | .zone | .unknown =>
      let area := buildArea code (some locations.ugcZoneEntry)
      if isMarineZoneState code.state then
        { ugcSection with marineZones := pushArea ugcSection.marineZones code.state area }
      else { ugcSection with zones := pushArea ugcSection.zones code.state area }
  | .fireZone =>
      let area := buildArea code none
      { ugcSection with fireZones := pushArea ugcSection.fireZones code.state area }
  | .marine =>
      let area := buildArea code none
      { ugcSection with marineZones := pushArea ugcSection.marineZones code.state area }

def fromCodes (codes : List UgcCode) (expires : UtcTime) : UgcSection F :=
  codes.foldl (addCode locations) ⟨{}, {}, {}, {}, expires⟩

end UgcSection

end Sections

-----------------------------------------------------------------------------------------
-- Candidates
-----------------------------------------------------------------------------------------

def iterCandidateLines (text : Text) : List Text := (lines text).map (trimEndWhile (· = '\r'))

def compactUgcText (text : Text) : Text := text.filter fun c => !isWhitespace c

def isUgcClassLetter (c : Char) : Bool := c = 'C' || c = 'Z' || c = 'F' || c = 'M'

/-- What may stand behind the first code of a block: `-`, `>`, `,`, a blank or a tab. -/
def isUgcFollower (byte : UInt8) : Bool :=
  byte = 45 || byte = 62 || byte = 44 || byte = 32 || byte = 9

def isUgcStart (line : Text) : Bool :=
  let trimmed := trimStart line
  match trimmed with
  | a :: b :: letter :: d1 :: d2 :: d3 :: _ =>
      a.isUpper && b.isUpper && isUgcClassLetter letter && d1.isDigit && d2.isDigit && d3.isDigit
      && (byteAt? trimmed 6).all isUgcFollower
  | _ => false

def hasUgcExpirationSuffix (text : Text) : Except Panic Bool :=
  if utf8Len text < 8 ∨ text.getLast? ≠ some '-' then return false
  else do
    let digits ← slice (utf8Len text - 7) (utf8Len text - 1) text
    return digits.all Char.isDigit && byteAt? text (utf8Len text - 8) == some 45

/-- A first token in capitals, as section headings have it. -/
def isHeaderToken (token : Text) : Bool :=
  4 ≤ utf8Len token && token.head?.any Char.isUpper
  && token.all fun c => c.isUpper || c.isDigit || c = '/' || c = '-'

def ugcStartsNewSectionHeader (line : Text) : Bool :=
  let trimmed := trim line
  if trimmed = [] then false
  else if trimmed.getLast? = some ':' ∨ "...".toList <:+: trimmed then true
  else !isUgcStart trimmed && isHeaderToken ((splitWhitespace trimmed).head?.getD [])

/-- The lines that a candidate goes on over, up to its expiration time: the joined text and the
number of lines taken.
-/
def joinUgcLines (combined : Text) : List Text → Except Panic (Text × Nat)
  | [] => do
      let _ ← hasUgcExpirationSuffix combined
      return (combined, 0)
  | nextLine :: rest => do
      if ← hasUgcExpirationSuffix combined then return (combined, 0)
      let next := trim nextLine
      if next = [] ∨ ugcStartsNewSectionHeader next then return (combined, 0)
      let (joined, taken) ← joinUgcLines (combined ++ compactUgcText next) rest
      return (joined, taken + 1)

def collectUgcCandidate (firstLine : Text) (remainingLines : List Text)
    : Except Panic (Option Text × Nat) := do
  let (combined, taken) ← joinUgcLines (compactUgcText firstLine) remainingLines
  let complete ← hasUgcExpirationSuffix combined
  return (if complete then some combined else none, taken)

/-- The candidates of the lines behind those that are already taken. -/
def ugcCandidatesFrom : (taken : Nat) → List Text → Except Panic (List Text)
  | _, [] => return []
  | taken + 1, _ :: rest => ugcCandidatesFrom taken rest
  | 0, line :: rest =>
      if isUgcStart line then do
        let (candidate, taken) ← collectUgcCandidate line rest
        let later ← ugcCandidatesFrom taken rest
        return candidate.toList ++ later
      else ugcCandidatesFrom 0 rest

def extractUgcCandidates (text : Text) : Except Panic (List Text) :=
  ugcCandidatesFrom 0 (iterCandidateLines text)

-----------------------------------------------------------------------------------------
-- Codes
-----------------------------------------------------------------------------------------

/-- A value of type `u16`. -/
def checkedU16 (value : Nat) : Except Panic Nat :=
  if value < 2 ^ 16 then .ok value else .error .overflow

def isThreeDigitUgcToken (token : Text) : Bool := utf8Len token == 3 && token.all Char.isDigit

def isOneToThreeDigitUgcToken (token : Text) : Bool :=
  1 ≤ utf8Len token && utf8Len token ≤ 3 && token.all Char.isDigit

def isUgcNumericSequence (segment : Text) : Bool :=
  match segment.splitOn '>' with
  | [] => false
  | first :: rest =>
      isThreeDigitUgcToken first
      && (rest.length = 0 || (rest.length = 1 || rest.length % 2 = 1)
            && rest.all isOneToThreeDigitUgcToken)

def parseUgcNumber (text : Text) : Option Nat :=
  if isThreeDigitUgcToken text then parseUnsigned (2 ^ 16) text else none

/-- The end of a range; one or two digits replace the last ones of the start. -/
def parseUgcRangeEnd (start : Nat) (token : Text) : Except Panic (Option Nat) :=
  if !isOneToThreeDigitUgcToken token then return none
  else if utf8Len token = 3 then
    return (parseUgcNumber token).filter (start ≤ ·)
  else
    match parseUnsigned (2 ^ 16) token with
    | none => return none
    | some suffix => do
        let magnitude := 10 ^ utf8Len token
        let front ← checkedU16 (start / magnitude * magnitude)
        let last ← checkedU16 (front + suffix)
        return if start ≤ last then some last else none

/-- Pairs of range starts and range ends. -/
def parseUgcRangePairs : List Text → Except Panic (Option (List (Nat × Nat)))
  | startToken :: endToken :: rest =>
      match parseUgcNumber startToken with
      | none => return none
      | some start => do
          match ← parseUgcRangeEnd start endToken with
          | none => return none
          | some last => do
              let later ← parseUgcRangePairs rest
              return later.map ((start, last) :: ·)
  | _ => return some []

def parseUgcNumericRanges (numeric : Text) : Except Panic (Option (List (Nat × Nat))) :=
  let tokens := numeric.splitOn '>'
  match tokens with
  | [] => return none
  | firstToken :: rest =>
      match parseUgcNumber firstToken with
      | none => return none
      | some first =>
          match rest with
          | [] => return some [(first, first)]
          | [endToken] => do
              let last ← parseUgcRangeEnd first endToken
              return last.map fun last => [(first, last)]
          | _ => if tokens.length % 2 ≠ 0 then return none else parseUgcRangePairs tokens

/-- A segment with a state and a class: `IAC001>003`. -/
def parseFullUgcSegment (segment : Text) : Except Panic (Option (Text × UgcClass × Text)) :=
  if utf8Len segment < 6 then return none
  else do
    let state ← sliceTo 2 segment
    match byteAt? segment 2 with
    | none => return none
    | some byte =>
        let geoclass := Char.ofNat byte.toNat
        if !state.all Char.isUpper then return none
        else if !isUgcClassLetter geoclass then return none
        else do
          let numeric ← sliceFrom 3 segment
          return if isUgcNumericSequence numeric then
            some (state, .fromChar geoclass, numeric)
          else none

/-- The state and class that a segment is read under, and its numbers. -/
def ugcSegmentParts (segment : Text) (currentPrefix : Option (Text × UgcClass))
    : Except Panic (Option (Text × UgcClass × Text)) := do
  match ← parseFullUgcSegment segment with
  | some parts => return some parts
  | none =>
      return if isUgcNumericSequence segment then
        currentPrefix.map fun (state, geoclass) => (state, geoclass, segment)
      else none

/-- The codes of the numbers from a start to an end. -/
def ugcCodesOf (state : Text) (geoclass : UgcClass) (range : Nat × Nat) : List UgcCode :=
  (List.range (range.2 + 1 - range.1)).map fun offset => ⟨state, geoclass, range.1 + offset⟩

/-- The codes of a segment, with the state and class for the next shorthand. -/
def parseUgcSegment (segment : Text) (currentPrefix : Option (Text × UgcClass))
    : Except Panic (Option (List UgcCode × (Text × UgcClass))) := do
  match ← ugcSegmentParts segment currentPrefix with
  | none => return none
  | some (state, geoclass, numeric) => do
      let ranges ← parseUgcNumericRanges numeric
      return ranges.map fun ranges => (ranges.flatMap (ugcCodesOf state geoclass), state, geoclass)

def expandUgcSegments (currentPrefix : Option (Text × UgcClass))
    : List Text → Except Panic (Option (List UgcCode))
  | [] => return some []
  | segment :: rest =>
      if segment = [] then expandUgcSegments currentPrefix rest
      else do
        match ← parseUgcSegment (trim segment) currentPrefix with
        | none => return none
        | some (codes, nextPrefix) => do
            let later ← expandUgcSegments (some nextPrefix) rest
            return later.map (codes ++ ·)

def isUgcSeparator (c : Char) : Bool := c = ',' || c = '-'

def expandUgcBlock (block : Text) : Except Panic (Option (List UgcCode)) := do
  let codes ← expandUgcSegments none (block.splitOnP isUgcSeparator)
  return codes.filter (· ≠ [])

def extractExpiration (text : Text) : Except Panic (Option (Text × Text)) := do
  if !(← hasUgcExpirationSuffix text) then return none
  let splitAt := utf8Len text - 8
  let codeBlock ← sliceTo splitAt text
  let expireCode ← slice (splitAt + 1) (utf8Len text - 1) text
  return some (codeBlock, expireCode)

section Parsing

variable {F : Type} (calendar : Calendar) (locations : Locations F)

def parseExpireTime (expireCode : Text) (validTime : UtcTime) : Except Panic (Option UtcTime) :=
  if utf8Len expireCode ≠ 6 then return none
  else do
    match ← sliceNumber 0 2 expireCode with
    | none => return none
    | some day =>
        match ← sliceNumber 2 4 expireCode with
        | none => return none
        | some hour =>
            match ← sliceNumber 4 6 expireCode with
            | none => return none
            | some minute => resolveDayTimeNotBefore calendar validTime day hour minute

def ugcIssue (code message : String) (text : Text) : ProductParseIssue :=
  .new "ugc_parse" code (quoting message text) (some text)

def parseUgcCapture (text : Text) (validTime : UtcTime)
    : Except Panic (Except ProductParseIssue (UgcSection F)) := do
  match ← extractExpiration text with
  | none => return .error (ugcIssue "invalid_ugc_format" "could not parse UGC section" text)
  | some (codeBlock, expireCode) =>
      match ← expandUgcBlock codeBlock with
      | none =>
          return .error (ugcIssue "invalid_ugc_codes" "could not parse UGC codes from section" text)
      | some codes =>
          match ← parseExpireTime calendar expireCode validTime with
          | none =>
              return .error (ugcIssue "invalid_ugc_expiration"
                "could not parse UGC expiration from section" text)
          | some expires => return .ok (.fromCodes locations codes expires)

def parseUgcSectionsWithIssues (text : Text) (validTime : UtcTime)
    : Except Panic (List (UgcSection F) × List ProductParseIssue) := do
  let candidates ← extractUgcCandidates text
  let results ← candidates.mapM (parseUgcCapture calendar locations · validTime)
  return collectResults results

end Parsing

end Emwin.Parser
