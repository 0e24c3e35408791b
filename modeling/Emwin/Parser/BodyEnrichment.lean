import Emwin.Parser.TimeMotLocSafety
import Emwin.Parser.UgcSafety
import Emwin.Parser.VtecSegments

/-! Bodies are read by the extractors that the catalog names for a product. Those of areas and of
storm motion may stop at a text, since they cut it before they look at its characters; all
others come back on every text.
-/

namespace Emwin.Parser
open Library

inductive BodyExtractorId where
  | vtecEvents | ugc | latLon | timeMotLoc | windHail
  deriving DecidableEq, Repr

inductive BodyQcRuleId where
  | ugcDuplicateCode
  deriving DecidableEq, Repr

structure BodyExtractionPlan where
  extractors : List BodyExtractorId
  qcRules : List BodyQcRuleId
  deriving DecidableEq, Repr

def bodyExtractionPlan (extractors : List BodyExtractorId) : BodyExtractionPlan where
  extractors := extractors
  qcRules := if .ugc ∈ extractors then [.ugcDuplicateCode] else []

inductive TextProductBodyBehavior where
  | never | catalog
  deriving DecidableEq, Repr

structure TextProductCatalogEntry where
  pil : Text
  bodyBehavior : TextProductBodyBehavior
  extractors : List BodyExtractorId
  deriving DecidableEq, Repr

-----------------------------------------------------------------------------------------
-- Plans
-----------------------------------------------------------------------------------------

def normalizePil (nnn : Text) : Option Text :=
  let key := toAsciiUppercase (trim nnn)
  if utf8Len key = 3 then some key else none

/-- The entry of a product; the search is made in a table that is sorted by the keys. -/
def textProductCatalogEntry (catalog : List TextProductCatalogEntry) (nnn : Text)
    : Option TextProductCatalogEntry := do
  let key ← normalizePil nnn
  catalog.find? (·.pil = key)

def bodyExtractionPlanForEntry (entry : TextProductCatalogEntry) : Option BodyExtractionPlan :=
  match entry.bodyBehavior with
  | .never => none
  | .catalog => some (bodyExtractionPlan entry.extractors)

/-- The plan of a product, where the catalog has one. -/
def planOf (catalog : List TextProductCatalogEntry) (pil : Text) : Option BodyExtractionPlan :=
  (textProductCatalogEntry catalog pil).bind bodyExtractionPlanForEntry

-----------------------------------------------------------------------------------------
-- Extraction
-----------------------------------------------------------------------------------------

section Extraction

variable {F : Type}

structure BodyExtractionState (F : Type) where
  genericBody : GenericBody F := {}
  vtecEventBody : Option (VtecEventBody F) := none
  issues : List ProductParseIssue := []
  hasGenericContent : Bool := false

/-- What an extractor of generic bodies read; nothing is put in the body if it found nothing. -/
def BodyExtractionState.addParsed {α : Type} (state : BodyExtractionState F)
    (put : GenericBody F → List α → GenericBody F) (read : List α × List ProductParseIssue)
    : BodyExtractionState F :=
  { state with
    genericBody := if read.1.isEmpty then state.genericBody else put state.genericBody read.1
    hasGenericContent := state.hasGenericContent || !read.1.isEmpty
    issues := state.issues ++ read.2 }

def BodyExtractionState.addIssue (state : BodyExtractionState F) (issue : ProductParseIssue)
    : BodyExtractionState F :=
  { state with issues := state.issues ++ [issue] }

structure BodyExtractionContext where
  text : Text
  referenceTime : Option UtcTime

/-- An extractor that cannot do without the reference time. -/
def applyTimedExtractor {α : Type} (missing : ProductParseIssue)
    (extract : UtcTime → Except Panic (List α × List ProductParseIssue))
    (put : GenericBody F → List α → GenericBody F) (state : BodyExtractionState F)
    (context : BodyExtractionContext)
    : Except Panic (BodyExtractionState F) :=
  match context.referenceTime with
  | some referenceTime => state.addParsed put <$> extract referenceTime
  | none => return state.addIssue missing

variable [Measure F] (externals : Externals F) (state : BodyExtractionState F)
variable (context : BodyExtractionContext)

def applyVtecEventsExtractor : Except Panic (BodyExtractionState F) := do
  let (parsed, issues) ←
    parseVtecEventBodyWithIssues externals context.text context.referenceTime
  return { state with
    vtecEventBody := parsed.or state.vtecEventBody
    issues := state.issues ++ issues }

def applyUgcExtractor : Except Panic (BodyExtractionState F) :=
  applyTimedExtractor
    (.new "ugc_parse" "missing_reference_time"
      ("could not parse UGC sections because the header timestamp could not be "
        ++ "resolved").toList none)
    (parseUgcSectionsWithIssues externals.calendar externals.locations context.text)
    (fun body parsed => { body with ugc := some parsed }) state context

def applyLatlonExtractor : Except Panic (BodyExtractionState F) :=
  state.addParsed (fun body parsed => { body with latlon := some parsed })
    <$> parseLatlonPolygonsWithIssues context.text

def applyTimeMotLocExtractor : Except Panic (BodyExtractionState F) :=
  applyTimedExtractor
    (.new "time_mot_loc_parse" "missing_reference_time"
      ("could not parse TIME...MOT...LOC entries because the header timestamp could not be "
        ++ "resolved").toList none)
    (parseTimeMotLocEntriesWithIssues externals.calendar context.text)
    (fun body parsed => { body with timeMotLoc := some parsed }) state context

def applyWindHailExtractor : Except Panic (BodyExtractionState F) :=
  state.addParsed (fun body parsed => { body with windHail := some parsed })
    <$> parseWindHailEntriesWithIssues externals.legacyMatches context.text

def applyExtractor : BodyExtractorId → Except Panic (BodyExtractionState F)
  | .vtecEvents => applyVtecEventsExtractor externals state context
  | .ugc => applyUgcExtractor externals state context
  | .latLon => applyLatlonExtractor state context
  | .timeMotLoc => applyTimeMotLocExtractor externals state context
  | .windHail => applyWindHailExtractor externals state context

end Extraction

-----------------------------------------------------------------------------------------
-- Bodies
-----------------------------------------------------------------------------------------

section Bodies

variable {F : Type}

/-- The sections that the check for duplicates looks at. -/
def qcSections : ProductBody F → Option (List (UgcSection F))
  | .vtecEvent body =>
      if vtecEventBodyHasMarineOnlyUgc body then none
      else body.segments.head?.map (·.ugcSections)
  | .generic body => body.ugc

/-- The codes that some section has twice; what was seen is forgotten between sections. -/
def duplicateUgcCodes (ugcSections : List (UgcSection F)) : SeenCodes :=
  ugcSections.foldl
    (fun codes ugcSection => collectSectionCodes ⟨.empty, codes.duplicates⟩ ugcSection)
    ⟨.empty, .empty⟩

def checkBodyQcRule (body : ProductBody F) : BodyQcRuleId → List ProductParseIssue
  | .ugcDuplicateCode =>
      match qcSections body with
      | none => []
      | some ugcSections =>
          let duplicates := (duplicateUgcCodes ugcSections).duplicates.entries.map Prod.fst
          if duplicates = [] then []
          else
            [.new "body_qc" "ugc_duplicate_code"
              ("encountered duplicated UGC codes in parsed product body: ".toList
                ++ ", ".toList.intercalate duplicates) none]

def validateBodyQc (body : ProductBody F) (plan : BodyExtractionPlan) : List ProductParseIssue :=
  plan.qcRules.flatMap (checkBodyQcRule body)

/-- The body of what the extractors read; VTEC events go before all else. -/
def BodyExtractionState.body (state : BodyExtractionState F) : Option (ProductBody F) :=
  match state.vtecEventBody with
  | some body => some (.vtecEvent body)
  | none => if state.hasGenericContent then some (.generic state.genericBody) else none

structure BodyExtractionOutcome (F : Type) where
  body : Option (ProductBody F)
  issues : List ProductParseIssue

variable [Measure F] (externals : Externals F)

def enrichBodyFromPlan (text : Text) (plan : BodyExtractionPlan) (referenceTime : Option UtcTime)
    : Except Panic (BodyExtractionOutcome F) := do
  let state ← plan.extractors.foldlM
    (fun state extractor => applyExtractor externals state ⟨text, referenceTime⟩ extractor) {}
  return {
    body := state.body
    issues := state.issues ++ state.body.elim [] (validateBodyQc · plan) }

def enrichBody (catalog : List TextProductCatalogEntry) (text pil : Text)
    (referenceTime : Option UtcTime)
    : Except Panic (Option (ProductBody F) × List ProductParseIssue) :=
  match planOf catalog pil with
  | none => return (none, [])
  | some plan => do
      let outcome ← enrichBodyFromPlan externals text plan referenceTime
      return (outcome.body, outcome.issues)

end Bodies

-----------------------------------------------------------------------------------------
-- Segments
-----------------------------------------------------------------------------------------

section Segments

variable {F : Type} (externals : Externals F)

theorem returns_pushVtecSegment (state : SplitState)
    : Returns (pushVtecSegment externals state) := by
  by_cases empty : state.current = []
  · exact ⟨state, if_pos empty⟩
  · exact ⟨_, pushVtecSegment_ok empty⟩

theorem returns_addLine (state : SplitState) (trimmed : Text)
    : Returns (addLine externals state trimmed) := by
  obtain ⟨content, looked⟩ := returns_looksLikeEventContent externals trimmed
  unfold addLine
  rw [looked, lineHasVtec_eq]
  by_cases closed : state.current = []
  · rw [if_pos closed]
    cases content with
    | false => exact ⟨state, rfl⟩
    | true =>
        by_cases blank : trim trimmed = [] <;>
          simp [Functor.map, Except.map, blank, closed, pure, Except.pure]
  · rw [if_neg closed]
    simp [closed, pure, Except.pure]

theorem returns_splitStep (state : SplitState) (line : Text)
    : Returns (splitStep externals state line) := by
  have flush (state : SplitState) : Returns (flushSegment externals state) :=
    (returns_pushVtecSegment externals state).bind fun _ _ => returns_pure _
  unfold splitStep
  dsimp only
  split
  · exact flush state
  · refine (returns_isSegmentBoundary _).bind fun boundary _ => ?_
    cases boundary with
    | true => exact (flush state).bind fun flushed _ => returns_addLine externals flushed _
    | false => exact returns_addLine externals state _

theorem returns_splitVtecSegments (text : Text) : Returns (splitVtecSegments externals text) := by
  have each (state : SplitState) (line : Text)
      : Returns (splitStep externals state line) ↔ True :=
    iff_of_true (returns_splitStep externals state line) trivial
  have run := (returns_foldlM_iff each (lines (normalizeReturns text)) {}).mpr fun _ _ => trivial
  exact run.bind fun state _ => (returns_pushVtecSegment externals state).bind
    fun _ _ => returns_pure _

variable [Measure F] (referenceTime : Option UtcTime)

/-- Areas and storm motion of a text may be cut where they are. -/
def AreasCut (time : UtcTime) (text : Text) : Prop :=
  UgcCuts text ∧ TimeMotLocCuts F externals.calendar time text

theorem returns_extractWithTime_iff {α : Type}
    {extract : UtcTime → Except Panic (List α × List ProductParseIssue)} (callsFor : Text → Bool)
    (missing : ProductParseIssue) (rawSegment : Text)
    : Returns (extractWithTime referenceTime extract callsFor missing rawSegment)
      ↔ ∀ time ∈ referenceTime, Returns (extract time) := by
  cases referenceTime with
  | none => exact iff_of_true (returns_pure _) (by simp)
  | some time =>
      simp only [extractWithTime, Option.mem_some_iff, forall_eq']
      exact returns_bind_of_total fun _ => returns_pure _

/-- A segment with codes is read exactly if its areas and its storm motion may be cut. -/
theorem returns_parseVtecSegment_iff (segmentIndex : Nat) (rawSegment : Text)
    : Returns (parseVtecSegment externals referenceTime segmentIndex rawSegment)
      ↔ (codesOf externals rawSegment ≠ []
        → ∀ time ∈ referenceTime, AreasCut externals time rawSegment) := by
  obtain ⟨vtecIssues, codes⟩ := parseVtecCodesWithIssues_ok externals.calendar rawSegment
  change _ = Except.ok (codesOf externals rawSegment, vtecIssues) at codes
  by_cases none : codesOf externals rawSegment = []
  · refine iff_of_true ?_ fun some => absurd none some
    unfold parseVtecSegment
    rw [codes, ok_bind]
    dsimp only
    rw [if_pos none]
    exact returns_pure _
  · have reads : (∀ time ∈ referenceTime, AreasCut externals time rawSegment)
        ↔ ∀ time ∈ referenceTime,
          Returns (parseUgcSectionsWithIssues externals.calendar externals.locations rawSegment
            time)
          ∧ Returns (parseTimeMotLocEntriesWithIssues (F := F) externals.calendar rawSegment
            time) := by
      simp only [AreasCut, returns_parseUgcSectionsWithIssues_iff,
        returns_parseTimeMotLocEntriesWithIssues_iff]
    rw [reads]
    constructor
    · intro returns _ time present
      unfold parseVtecSegment at returns
      rw [codes, ok_bind] at returns
      dsimp only at returns
      rw [if_neg none] at returns
      obtain ⟨ugc, areas, returns⟩ := returns_bind_iff.mp returns
      obtain ⟨hvtec, -, returns⟩ := returns_bind_iff.mp returns
      obtain ⟨polygons, -, returns⟩ := returns_bind_iff.mp returns
      obtain ⟨timeMotLoc, motion, -⟩ := returns_bind_iff.mp returns
      exact ⟨(returns_extractWithTime_iff referenceTime _ _ _).mp ⟨ugc, areas⟩ time present,
        (returns_extractWithTime_iff referenceTime _ _ _).mp ⟨timeMotLoc, motion⟩ time present⟩
    · exact fun cuts => returns_parseVtecSegment segmentIndex (cuts none)

theorem returns_parseVtecEventBodyWithIssues_iff {text : Text} {rawSegments : List Text}
    (split : splitVtecSegments externals text = .ok rawSegments)
    : Returns (parseVtecEventBodyWithIssues externals text referenceTime)
      ↔ ∀ raw ∈ rawSegments, codesOf externals raw ≠ []
        → ∀ time ∈ referenceTime, AreasCut externals time raw := by
  have all : Returns (rawSegments.zipIdx.mapM fun numbered =>
      parseVtecSegment externals referenceTime numbered.2 numbered.1)
      ↔ ∀ raw ∈ rawSegments, codesOf externals raw ≠ []
        → ∀ time ∈ referenceTime, AreasCut externals time raw := by
    rw [returns_mapM_iff]
    simp only [returns_parseVtecSegment_iff]
    constructor
    · intro each raw member
      obtain ⟨place, inside, rfl⟩ := List.mem_iff_getElem.mp member
      exact each (rawSegments[place], place)
        (List.mem_zipIdx_iff_getElem?.mpr (List.getElem?_eq_getElem inside))
    · intro each pair member
      exact each pair.1 ((List.mem_zipIdx' member).2 ▸ List.getElem_mem _)
  rw [← all]
  unfold parseVtecEventBodyWithIssues
  rw [split, ok_bind]
  exact returns_bind_of_total fun _ => returns_pure _

end Segments

-----------------------------------------------------------------------------------------
-- Coming back
-----------------------------------------------------------------------------------------

section Returning

variable {F : Type} [Measure F] (externals : Externals F)

/-- What an extractor cuts out of a text, at some reference time, are whole characters. -/
def ExtractorCuts (text : Text) (time : UtcTime) : BodyExtractorId → Prop
  | .vtecEvents =>
      ∀ rawSegments, splitVtecSegments externals text = .ok rawSegments
        → ∀ raw ∈ rawSegments, codesOf externals raw ≠ [] → AreasCut externals time raw
  | .ugc => UgcCuts text
  | .timeMotLoc => TimeMotLocCuts F externals.calendar time text
  | .latLon | .windHail => True

omit [Measure F] in
theorem returns_applyTimedExtractor_iff {α : Type} {missing : ProductParseIssue}
    {extract : UtcTime → Except Panic (List α × List ProductParseIssue)}
    {put : GenericBody F → List α → GenericBody F} (state : BodyExtractionState F) (text : Text)
    (referenceTime : Option UtcTime)
    : Returns (applyTimedExtractor missing extract put state ⟨text, referenceTime⟩)
      ↔ ∀ time ∈ referenceTime, Returns (extract time) := by
  cases referenceTime with
  | none => exact iff_of_true (returns_pure _) (by simp)
  | some time => simp [applyTimedExtractor]

theorem returns_applyExtractor_iff (text : Text) (referenceTime : Option UtcTime)
    (state : BodyExtractionState F) (extractor : BodyExtractorId)
    : Returns (applyExtractor externals state ⟨text, referenceTime⟩ extractor)
      ↔ ∀ time ∈ referenceTime, ExtractorCuts externals text time extractor := by
  cases extractor with
  | vtecEvents =>
      obtain ⟨rawSegments, split⟩ := returns_splitVtecSegments externals text
      have read : Returns (applyExtractor externals state ⟨text, referenceTime⟩ .vtecEvents)
          ↔ Returns (parseVtecEventBodyWithIssues externals text referenceTime) :=
        returns_bind_of_total fun _ => returns_pure _
      rw [read, returns_parseVtecEventBodyWithIssues_iff externals referenceTime split]
      constructor
      · intro each time present others same raw member some
        obtain rfl := Except.ok.inj (split.symm.trans same)
        exact each raw member some time present
      · exact fun cuts raw member some time present =>
          cuts time present rawSegments split raw member some
  | ugc =>
      rw [applyExtractor, applyUgcExtractor, returns_applyTimedExtractor_iff]
      simp only [returns_parseUgcSectionsWithIssues_iff, ExtractorCuts]
  | latLon =>
      exact iff_of_true (map_returns_iff.mpr (returns_parseLatlonPolygonsWithIssues text))
        fun _ _ => trivial
  | timeMotLoc =>
      rw [applyExtractor, applyTimeMotLocExtractor, returns_applyTimedExtractor_iff]
      simp only [returns_parseTimeMotLocEntriesWithIssues_iff, ExtractorCuts]
  | windHail =>
      exact iff_of_true (map_returns_iff.mpr (returns_parseWindHailEntriesWithIssues _ text))
        fun _ _ => trivial

theorem returns_enrichBodyFromPlan_iff (text : Text) (plan : BodyExtractionPlan)
    (referenceTime : Option UtcTime)
    : Returns (enrichBodyFromPlan externals text plan referenceTime)
      ↔ ∀ extractor ∈ plan.extractors, ∀ time ∈ referenceTime,
          ExtractorCuts externals text time extractor := by
  rw [← returns_foldlM_iff (returns_applyExtractor_iff externals text referenceTime)
    plan.extractors {}]
  exact returns_bind_of_total fun _ => returns_pure _

/-- A body is enriched exactly if the extractors of its product cut between characters: the
suffixes and the segments of area blocks, and the coordinates of storm motion. No other cut, no
index and no number goes wrong on any text.
-/
theorem enrichBody_returns_iff (catalog : List TextProductCatalogEntry) (text pil : Text)
    (referenceTime : Option UtcTime)
    : Returns (enrichBody externals catalog text pil referenceTime)
      ↔ ∀ plan ∈ planOf catalog pil, ∀ extractor ∈ plan.extractors, ∀ time ∈ referenceTime,
          ExtractorCuts externals text time extractor := by
  unfold enrichBody
  cases found : planOf catalog pil with
  | none => exact iff_of_true (returns_pure _) (by simp)
  | some plan =>
      simp only [Option.mem_some_iff, forall_eq', ← returns_enrichBodyFromPlan_iff]
      exact returns_bind_of_total fun _ => returns_pure _

end Returning

/-- The catalog with one of its products, a forecast for zones. -/
def zoneCatalog : List TextProductCatalogEntry := [⟨"ZFP".toList, .catalog, [.ugc]⟩]

/-- A line whose last seven bytes start inside of a character. -/
def accentedBlock : Text := "NEC001-1é12345-".toList

example : (enrichBody bareExternals zoneCatalog "NEC001-051300-".toList "ZFP".toList
    (some 0)).isOk = true := by
  decide +kernel

theorem enrichBody_stops
    : ¬ ∀ (catalog : List TextProductCatalogEntry) (text pil : Text)
          (referenceTime : Option UtcTime),
        Returns (enrichBody bareExternals catalog text pil referenceTime) := by
  intro all
  obtain ⟨outcome, read⟩ := all zoneCatalog accentedBlock "ZFP".toList (some 0)
  have stopped : (enrichBody bareExternals zoneCatalog accentedBlock "ZFP".toList
      (some 0)).isOk = false := by
    decide +kernel
  rw [read] at stopped
  cases stopped

end Emwin.Parser
