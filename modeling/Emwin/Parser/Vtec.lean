import Emwin.Parser.Support

/-! VTEC codes and hydrologic VTEC codes, which stand between slashes. -/

namespace Emwin.Parser
open Library

-----------------------------------------------------------------------------------------
-- VTEC
-----------------------------------------------------------------------------------------

section Vtec

variable (calendar : Calendar)

def isAsciiUppercaseByte (byte : UInt8) : Bool := 65 ≤ byte && byte ≤ 90

def isVtecCandidate (candidate : Text) : Bool :=
  (byteAt? candidate 1).any isAsciiUppercaseByte && byteAt? candidate 2 == some 46

def findVtecCandidates (text : Text) : Except Panic (List Text) :=
  scanSlashDelimitedCandidates isVtecCandidate text

def invalidVtecFormatIssue (raw : Text) : ProductParseIssue :=
  .new "vtec_parse" "invalid_vtec_format" (quoting "could not parse VTEC code" raw) (some raw)

def invalidVtecEtnIssue (raw : Text) : ProductParseIssue :=
  .new "vtec_parse" "invalid_vtec_etn" (quoting "could not parse VTEC ETN from code" raw)
    (some raw)

/-- The two times of a VTEC code. -/
inductive VtecTime where
  | begin | finish
  deriving DecidableEq, Repr

def invalidVtecTimeIssue (raw : Text) : VtecTime → ProductParseIssue
  | .begin =>
      .new "vtec_parse" "invalid_vtec_begin_time"
        (quoting "could not parse VTEC begin time from code" raw) (some raw)
  | .finish =>
      .new "vtec_parse" "invalid_vtec_end_time"
        (quoting "could not parse VTEC end time from code" raw) (some raw)

def unspecifiedTime : Text := "000000T0000Z".toList

def parseVtecTime (timeStr : Text) : Option UtcTime :=
  if utf8Len timeStr ≠ 12 then none else calendar.parseCompact timeStr

def parseVtecTimeOrUnspecified (token : Text) (which : VtecTime) (raw : Text)
    : Except ProductParseIssue (Option UtcTime) :=
  if token = unspecifiedTime then .ok none
  else do
    let parsed ← okOr (invalidVtecTimeIssue raw which) (parseVtecTime calendar token)
    return if calendar.year parsed < 1971 then none else some parsed

/-- The only character of a field with one byte. -/
def onlyChar (field : Text) : Option Char := field.head?.filter fun _ => utf8Len field = 1

/-- The code of the seven fields between the dots. -/
def parseVtecFields (raw : Text) : List Text → Except ProductParseIssue VtecCode
  | [status, action, office, phenomena, significance, etn, times] => do
      let status ← okOr (invalidVtecFormatIssue raw) (onlyChar status)
      let significance ← okOr (invalidVtecFormatIssue raw) (onlyChar significance)
      let etn ← okOr (invalidVtecEtnIssue raw) (parseUnsigned (2 ^ 32) etn)
      let (beginRaw, endRaw) ← okOr (invalidVtecFormatIssue raw) (splitOnce '-' times)
      let beginUtc ← parseVtecTimeOrUnspecified calendar beginRaw .begin raw
      let endUtc ← parseVtecTimeOrUnspecified calendar endRaw .finish raw
      return { status, action, office, phenomena, significance, etn := .ofNat etn, beginUtc,
               endUtc }
  | _ => .error (invalidVtecFormatIssue raw)

def parseVtecCandidate (raw : Text) : Except ProductParseIssue VtecCode := do
  let inner ← okOr (invalidVtecFormatIssue raw) (stripDelimiters '/' raw)
  parseVtecFields calendar raw (inner.splitOn '.')

def parseVtecCodesWithIssues (text : Text)
    : Except Panic (List VtecCode × List ProductParseIssue) := do
  let candidates ← findVtecCandidates text
  return collectResults (candidates.map (parseVtecCandidate calendar))

def parseVtecCodes (text : Text) : Except Panic (List VtecCode) :=
  Prod.fst <$> parseVtecCodesWithIssues calendar text

end Vtec

-----------------------------------------------------------------------------------------
-- HVTEC
-----------------------------------------------------------------------------------------

section Hvtec

variable {F : Type} (calendar : Calendar) (nwslidEntry : Text → Option (NwslidEntry F))

def HvtecSeverity.fromStr (s : Text) : HvtecSeverity :=
  if s = ['N'] ∨ s = ['0'] then .none
  else if s = ['1'] then .minor
  else if s = ['2'] then .moderate
  else if s = ['3'] then .major
  else .unknown

/-- The causes by their codes; every other code is an unlisted cause. -/
def hvtecCauses : List (Text × HvtecCause) :=
  [("ER".toList, .excessiveRainfall), ("SM".toList, .snowmelt), ("RS".toList, .rainAndSnowmelt),
   ("DM".toList, .damFailure), ("GO".toList, .glacierOutburst), ("IJ".toList, .iceJam),
   ("IC".toList, .rainSnowmeltIceJam), ("FS".toList, .upstreamFloodingStormSurge),
   ("FT".toList, .upstreamFloodingTidalEffects), ("ET".toList, .elevatedUpstreamFlowTidalEffects),
   ("WT".toList, .windTidalEffects), ("DR".toList, .upstreamDamRelease),
   ("MC".toList, .multipleCauses), ("OT".toList, .otherEffects), ("UU".toList, .unknown)]

def HvtecCause.fromStr (s : Text) : HvtecCause := (hvtecCauses.lookup s).getD .other

def HvtecRecord.fromStr (s : Text) : HvtecRecord :=
  if s = "NO".toList then .noRecord
  else if s = "NR".toList then .nearRecord
  else if s = "OO".toList then .notApplicable
  else if s = "UU".toList then .unavailable
  else .unknown

def isAsciiAlphanumeric (c : Char) : Bool := c.isAlphanum

def isValidNwslid (field : Text) : Bool := utf8Len field == 5 && field.all isAsciiAlphanumeric

/-- The fields that a candidate has to start with. -/
def isHvtecStart : List Text → Bool
  | nwslid :: severity :: cause :: _ =>
      isValidNwslid nwslid
      && (severity ∈ ["N", "0", "1", "2", "3", "U"].map String.toList)
      && utf8Len cause == 2 && cause.all Char.isUpper
  | _ => false

def isStructurallyHvtecCandidate (candidate : Text) : Bool :=
  match stripDelimiters '/' candidate with
  | none => false
  | some inner => isHvtecStart (inner.splitOn '.')

def findHvtecCandidates (text : Text) : Except Panic (List Text) :=
  scanSlashDelimitedCandidates isStructurallyHvtecCandidate text

def invalidHvtecFormatIssue (raw : Text) : ProductParseIssue :=
  .new "hvtec_parse" "invalid_hvtec_format" (quoting "could not parse HVTEC code" raw) (some raw)

/-- The three times of an HVTEC code. -/
inductive HvtecTime where
  | begin | crest | finish
  deriving DecidableEq, Repr

def invalidHvtecTimeIssue (raw : Text) : HvtecTime → ProductParseIssue
  | .begin =>
      .new "hvtec_parse" "invalid_hvtec_begin_time"
        (quoting "could not parse HVTEC begin time from code" raw) (some raw)
  | .crest =>
      .new "hvtec_parse" "invalid_hvtec_crest_time"
        (quoting "could not parse HVTEC crest time from code" raw) (some raw)
  | .finish =>
      .new "hvtec_parse" "invalid_hvtec_end_time"
        (quoting "could not parse HVTEC end time from code" raw) (some raw)

def parseHvtecTime (timeStr : Text) : Option UtcTime :=
  if utf8Len timeStr ≠ 12 then none else calendar.parseCompact timeStr

def parseHvtecOptionalTime (token : Text) : Option (Option UtcTime) :=
  if token = unspecifiedTime then some none else (parseHvtecTime calendar token).map some

/-- The code of the seven fields between the dots. -/
def parseHvtecFields (raw : Text) : List Text → Except ProductParseIssue (HvtecCode F)
  | [nwslid, severity, cause, beginRaw, crestRaw, endRaw, record] => do
      let beginUtc ←
        okOr (invalidHvtecTimeIssue raw .begin) (parseHvtecOptionalTime calendar beginRaw)
      let crest ← okOr (invalidHvtecTimeIssue raw .crest) (parseHvtecOptionalTime calendar crestRaw)
      let endUtc ← okOr (invalidHvtecTimeIssue raw .finish) (parseHvtecOptionalTime calendar endRaw)
      return { nwslid
               location := nwslidEntry nwslid
               severity := .fromStr severity
               cause := .fromStr cause
               beginUtc, crest, endUtc
               record := .fromStr record }
  | _ => .error (invalidHvtecFormatIssue raw)

def parseHvtecCandidate (raw : Text) : Except ProductParseIssue (HvtecCode F) := do
  let inner ← okOr (invalidHvtecFormatIssue raw) (stripDelimiters '/' raw)
  parseHvtecFields calendar nwslidEntry raw (inner.splitOn '.')

def parseHvtecCodesWithIssues (text : Text)
    : Except Panic (List (HvtecCode F) × List ProductParseIssue) := do
  let candidates ← findHvtecCandidates text
  return collectResults (candidates.map (parseHvtecCandidate calendar nwslidEntry))

end Hvtec

-----------------------------------------------------------------------------------------
-- Codes of spans
-----------------------------------------------------------------------------------------

section Spans

variable {F : Type} (calendar : Calendar) (nwslidEntry : Text → Option (NwslidEntry F))

/-- The VTEC code that a span from one slash to the next stands for. -/
def vtecOf (span : Text) : Option VtecCode :=
  if isVtecCandidate span then (parseVtecCandidate calendar span).toOption else none

/-- The HVTEC code that a span stands for. -/
def hvtecOf (span : Text) : Option (HvtecCode F) :=
  if isStructurallyHvtecCandidate span then
    (parseHvtecCandidate calendar nwslidEntry span).toOption
  else none

/-- The codes of a text, span by span. -/
def vtecCodes (text : Text) : List VtecCode := (delimited '/' text).filterMap (vtecOf calendar)

def hvtecCodes (text : Text) : List (HvtecCode F) :=
  (delimited '/' text).filterMap (hvtecOf calendar nwslidEntry)

theorem filterMap_filter_map {α β γ : Type} (keep : α → Bool) (f : α → β) (g : β → Option γ)
    (list : List α)
    : ((list.filter keep).map f).filterMap g
      = list.filterMap fun a => if keep a then g (f a) else none := by
  rw [List.filterMap_map, List.filterMap_filter]
  rfl

/-- Reading a text gives the codes of its spans. -/
theorem parseVtecCodesWithIssues_ok (text : Text)
    : ∃ issues, parseVtecCodesWithIssues calendar text = .ok (vtecCodes calendar text, issues) := by
  rw [parseVtecCodesWithIssues, findVtecCandidates, scanSlashDelimitedCandidates_eq, ok_bind]
  exact ⟨_, congrArg (fun codes => Except.ok (codes, _)) (filterMap_filter_map ..)⟩

theorem parseVtecCodes_eq (text : Text)
    : parseVtecCodes calendar text = .ok (vtecCodes calendar text) := by
  obtain ⟨issues, read⟩ := parseVtecCodesWithIssues_ok calendar text
  rw [parseVtecCodes, read]
  rfl

theorem parseHvtecCodesWithIssues_ok (text : Text)
    : ∃ issues,
        parseHvtecCodesWithIssues calendar nwslidEntry text
        = .ok (hvtecCodes calendar nwslidEntry text, issues) := by
  rw [parseHvtecCodesWithIssues, findHvtecCandidates, scanSlashDelimitedCandidates_eq, ok_bind]
  exact ⟨_, congrArg (fun codes => Except.ok (codes, _)) (filterMap_filter_map ..)⟩

/-- A text without a slash has no codes. -/
theorem vtecCodes_of_no_slash {text : Text} (absent : '/' ∉ text)
    : vtecCodes calendar text = [] := by
  rw [vtecCodes, delimited_of_not_mem absent]
  rfl

end Spans

end Emwin.Parser
