import Emwin.Parser.MetarReports

/-! Collectives of aviation weather reports: which reports are read as they are written. -/

namespace Emwin.Parser
open Library

-----------------------------------------------------------------------------------------
-- Normalized segments
-----------------------------------------------------------------------------------------

theorem foldl_pushNormalized (text : Text) (normalized : Text × Bool)
    : text.foldl pushNormalized normalized
      = (text.filter fun c => !isDropped c).foldl pushCompacted normalized := by
  rw [List.foldl_filter]
  refine congrArg (fun push => text.foldl push normalized) ?_
  funext normalized c
  rw [pushNormalized]
  cases isDropped c <;> rfl

/-- Without dropped characters a segment is only compacted. -/
theorem normalizeMetarSegment_eq {segment : Text} (shown : ∀ c ∈ segment, isDropped c = false)
    : normalizeMetarSegment segment = joinWords (tokens isAsciiWhitespace segment) := by
  have kept : segment.filter (fun c => !isDropped c) = segment :=
    List.filter_eq_self.mpr fun c member => by rw [shown c member]; rfl
  rw [normalizeMetarSegment, foldl_pushNormalized, kept, ← compactAsciiWhitespace_eq]
  rfl

theorem mem_joinWords {words : List Text} {c : Char} (member : c ∈ joinWords words)
    : c = ' ' ∨ ∃ word ∈ words, c ∈ word := by
  cases words with
  | nil => cases member
  | cons first words =>
      rw [joinWords_cons, List.mem_append, List.mem_flatMap] at member
      rcases member with member | ⟨word, among, member⟩
      · exact .inr ⟨first, by simp, member⟩
      · rcases List.mem_cons.mp member with rfl | member
        · exact .inl rfl
        · exact .inr ⟨word, by simp [among], member⟩

/-- Words that are joined come apart again. -/
theorem splitOnP_joinWords {words : List Text} (some : words ≠ [])
    (solid : ∀ word ∈ words, ' ' ∉ word)
    : (joinWords words).splitOnP (· = ' ') = words :=
  List.splitOn_intercalate ' ' solid some

-----------------------------------------------------------------------------------------
-- One report
-----------------------------------------------------------------------------------------

/-- The remarks without what looks like the mark of a correction. -/
def WrittenMetar.remarksRead (written : WrittenMetar) : List Text :=
  (written.remarks.getD []).filter (· ≠ "COR".toList)

def remarksOf (remarks : List Text) : Option Text :=
  if remarks ≠ [] then some (joinWords remarks) else none

theorem isRemark_of_bounds {word : Text} (some : word ≠ [])
    (bounds : ∀ c ∈ word, 43 ≤ c.toNat ∧ c.toNat ≤ 122 ∧ c.toNat ≠ 61)
    : IsRemark word := by
  refine ⟨some, fun c member => ?_, fun c member => ?_, fun member => ?_⟩
  · have least := (bounds c member).1
    cases blank : isAsciiWhitespace c with
    | false => rfl
    | true =>
        simp only [isAsciiWhitespace, Bool.or_eq_true, decide_eq_true_eq] at blank
        rcases blank with (((rfl | rfl) | rfl) | rfl) | rfl <;> exact absurd least (by decide)
  · obtain ⟨least, most, -⟩ := bounds c member
    simp only [isAsciiControl, Bool.or_eq_false_iff, decide_eq_false_iff_not]
    omega
  · exact (bounds '=' member).2.2 rfl

theorem isRemark_of_reportChars {word : Text} (some : word ≠ [])
    (reported : word.all isReportChar = true)
    : IsRemark word := by
  refine isRemark_of_bounds some fun c member => ?_
  have shown := List.all_eq_true.mp reported c member
  simp only [isReportChar, Bool.or_eq_true] at shown
  rcases shown with (upper | digit) | other
  · have bounds := bounds_of_isUpper upper
    omega
  · have bounds := bounds_of_isDigit digit
    omega
  · have all : ∀ c ∈ "/+-".toList, 43 ≤ c.toNat ∧ c.toNat ≤ 122 ∧ c.toNat ≠ 61 := by decide
    exact all c (by simpa using other)

/-- Words of a report have no blank, no control character and no end of a report. -/
theorem WrittenMetar.isRemark (written : WrittenMetar) {word : Text}
    (member : word ∈ written.words)
    : IsRemark word := by
  simp only [WrittenMetar.words, WrittenMetar.heading, List.cons_append, List.mem_cons,
    List.mem_append, List.not_mem_nil, or_false] at member
  rcases member with rfl | (member | rfl) | rfl | member | member
  · cases written.kind
    · exact isRemark_of_reportChars (by decide) (by decide)
    · exact isRemark_of_reportChars (by decide) (by decide)
  · split at member
    · obtain rfl := List.mem_singleton.mp member
      exact isRemark_of_reportChars (by decide) (by decide)
    · cases member
  · have isStation := written.isStation
    simp only [isMetarStation, Bool.and_eq_true, decide_eq_true_eq] at isStation
    refine isRemark_of_bounds (fun none => ?_) fun c member => ?_
    · rw [none] at isStation
      exact absurd isStation.1.1 (by decide)
    · have bounds := bounds_of_isAlphanum (List.all_eq_true.mp isStation.2 c member)
      omega
  · refine isRemark_of_reportChars (by simp [WrittenMetar.observationTime]) ?_
    have literal : isReportChar 'Z' = true := by decide
    simp [WrittenMetar.observationTime, written.time.written, literal]
  · have isGroup := written.groups.isGroupWord member
    exact isRemark_of_reportChars isGroup.nonempty isGroup.written
  · rw [WrittenMetar.remarkWords] at member
    cases remarks : written.remarks with
    | none =>
        rw [remarks] at member
        cases member
    | some remarks' =>
        rw [remarks] at member
        rcases List.mem_cons.mp member with rfl | member
        · exact isRemark_of_reportChars (by decide) (by decide)
        · exact (written.remarked remarks' (by simp [remarks])).2 word member

theorem foldlM_remarkWords (written : WrittenMetar) {body : MetarBody}
    (before : body.inRemarks = false) (none : body.remarksTokens = [])
    : ∃ inRemarks,
        written.remarkWords.foldlM addMetarToken body
        = .ok { body with remarksTokens := written.remarksRead, inRemarks } := by
  rw [WrittenMetar.remarkWords, WrittenMetar.remarksRead]
  cases written.remarks with
  | none =>
      refine ⟨false, ?_⟩
      have same : { body with remarksTokens := [], inRemarks := false } = body := by
        rw [← before, ← none]
      exact congrArg Except.ok same.symm
  | some remarks =>
      refine ⟨true, ?_⟩
      have step : addMetarToken body "RMK".toList = .ok { body with inRemarks := true } := by
        rw [addMetarToken, if_neg (by decide), if_neg (by simp [before]), if_pos rfl]
        rfl
      rw [Option.map_some, Option.getD_some, List.foldlM_cons, step, ok_bind,
        foldlM_addMetarToken_remarks remarks rfl, none]
      rfl

theorem isObservationTime_time (written : WrittenMetar)
    : isObservationTime written.observationTime = true := by
  have size : utf8Len (written.time.text ++ ['Z']) = 7 := by
    rw [utf8Len_append, written.time.utf8Len_eq]
    rfl
  rw [WrittenMetar.observationTime, isObservationTime, size, List.getLast?_concat,
    List.dropLast_concat, written.time.digits]
  rfl

/-- A report is read with all of its remarks and with what its groups add up to. -/
theorem exists_parseMetarReportRef (written : WrittenMetar)
    : ∃ body,
        ReadOf written.groups.words body
        ∧ ((∀ whole above below, written.groups.visibility ≠ some (.mixed whole above below))
          → (∀ sky ∈ written.groups.sky, ¬ sky.IsVertical) → body = written.groups.body)
        ∧ parseMetarReportRef (joinWords written.words)
          = .ok (some (written.reportOf body (remarksOf written.remarksRead))) := by
  have empty : ReadOf written.groups.words {} := ⟨rfl, rfl, nofun, nofun⟩
  obtain ⟨body, groups, readOf⟩ := exists_foldlM_addMetarToken (List.Subset.refl _)
    (fun word member => (written.groups.isGroupWord member).notMark)
    (fun word member => isAscii_of_reportChars (written.groups.isGroupWord member).written) empty
  refine ⟨body, readOf, fun whole level => ?_, ?_⟩
  · exact Except.ok.inj (groups.symm.trans (foldlM_words written.groups whole level))
  obtain ⟨inRemarks, remarks⟩ :=
    foldlM_remarkWords written readOf.before readOf.noRemarks
  have body' (correction : Bool) (raw : Text)
      : parseMetarBody written.kind written.station
          (written.observationTime :: (written.groups.words ++ written.remarkWords)) correction raw
        = .ok (some { written.reportOf body (remarksOf written.remarksRead) with
            correction, raw }) := by
    rw [parseMetarBody, written.isStation, isObservationTime_time, if_neg (by simp),
      List.foldlM_append, groups, ok_bind, remarks, ok_bind]
    rfl
  have notCorrection : written.station ≠ "COR".toList := by
    intro same
    have isStation := written.isStation
    rw [same] at isStation
    exact absurd isStation (by decide)
  have some : written.station ≠ [] := by
    intro same
    have isStation := written.isStation
    rw [same] at isStation
    exact absurd isStation (by decide)
  have start : findMetarStart written.words = .some (written.kind, written.words.tail, none) := by
    rw [WrittenMetar.words, WrittenMetar.heading]
    cases written.kind <;> rfl
  rw [parseMetarReportRef, splitOnP_joinWords (by simp [WrittenMetar.words, WrittenMetar.heading])
    (fun word member blank => absurd ((written.isRemark member).solid ' ' blank) (by decide)),
    start]
  simp only
  cases correction : written.correction with
  | false =>
      have tail : written.words.tail
          = written.station :: written.observationTime
            :: (written.groups.words ++ written.remarkWords) := by
        rw [WrittenMetar.words, WrittenMetar.heading, correction]
        rfl
      rw [tail, List.headD_cons, List.tail_cons, if_neg some, parseMetarStation,
        if_neg notCorrection, body', ← correction]
      rfl
  | true =>
      have tail : written.words.tail
          = "COR".toList :: written.station :: written.observationTime
            :: (written.groups.words ++ written.remarkWords) := by
        rw [WrittenMetar.words, WrittenMetar.heading, correction]
        rfl
      rw [tail, List.headD_cons, List.tail_cons, if_neg (by decide), parseMetarStation, if_pos rfl]
      simp only [written.isStation, Bool.not_true, Bool.false_eq_true, if_false]
      rw [body', ← correction]
      rfl

theorem not_mem_remarksRead (written : WrittenMetar) : "COR".toList ∉ written.remarksRead := by
  simp [WrittenMetar.remarksRead]

/-- The remarks are kept exactly if none of them looks like the mark of a correction. -/
theorem remarksOf_eq_iff (written : WrittenMetar)
    : remarksOf written.remarksRead = written.remarks.map joinWords
      ↔ ∀ remarks ∈ written.remarks, "COR".toList ∉ remarks := by
  cases said : written.remarks with
  | none => simp [WrittenMetar.remarksRead, said, remarksOf]
  | some remarks =>
      obtain ⟨some, areRemarks⟩ := written.remarked remarks (by simp [said])
      have solid : ∀ word ∈ remarks, ' ' ∉ word := fun word member blank =>
        absurd ((areRemarks word member).solid ' ' blank) (by decide)
      constructor
      · intro same remarks' among
        obtain rfl : remarks = remarks' := by simpa using among
        rw [remarksOf] at same
        split at same
        · next shown =>
            have same : joinWords written.remarksRead = joinWords remarks := by simpa using same
            have solidRead : ∀ word ∈ written.remarksRead, ' ' ∉ word := by
              intro word member
              rw [WrittenMetar.remarksRead, said] at member
              exact solid word (List.mem_filter.mp member).1
            have pieces := congrArg (·.splitOnP (· = ' ')) same
            simp only [splitOnP_joinWords some solid, splitOnP_joinWords shown solidRead] at pieces
            exact pieces ▸ not_mem_remarksRead written
        · cases same
      · intro free
        have free := free remarks (by simp)
        have kept : written.remarksRead = remarks := by
          rw [WrittenMetar.remarksRead, said]
          refine List.filter_eq_self.mpr fun word member => ?_
          have other : word ≠ "COR".toList := fun same => free (same ▸ member)
          simpa using other
        rw [kept, remarksOf, if_pos some]
        rfl

theorem reportOf_eq_iff (written : WrittenMetar) {body : MetarBody}
    (readOf : ReadOf written.groups.words body)
    (groups : (∀ whole above below, written.groups.visibility ≠ some (.mixed whole above below))
      → (∀ sky ∈ written.groups.sky, ¬ sky.IsVertical) → body = written.groups.body)
    : written.reportOf body (remarksOf written.remarksRead) = written.report ↔ written.Kept := by
  constructor
  · intro same
    have visibility : body.visibility = written.groups.visibility.map WrittenVisibility.text :=
      congrArg MetarReport.visibility same
    have sky : body.skyConditions = written.groups.sky.map WrittenSky.metar :=
      congrArg MetarReport.skyConditions same
    have remarks : remarksOf written.remarksRead = written.remarks.map joinWords :=
      congrArg MetarReport.remarks same
    refine ⟨fun whole above below mixed => ?_, fun sky' member isVertical => ?_,
      (remarksOf_eq_iff written).mp remarks⟩
    · -- two words are no word
      rw [mixed, Option.map_some] at visibility
      have among := readOf.visibility _ visibility
      have reported := (written.groups.isGroupWord among).written
      have blank : ' ' ∈ (WrittenVisibility.mixed whole above below).text := by
        simp [WrittenVisibility.text, WrittenVisibility.words, joinWords_cons_cons]
      exact absurd (List.all_eq_true.mp reported ' ' blank) (by decide)
    · cases sky' with
      | clear word known => exact isVertical
      | layer amount height kind => exact isVertical
      | vertical height =>
          have inside : (WrittenSky.vertical height : WrittenSky metarClear).metar
              ∈ body.skyConditions := by
            rw [sky]
            exact List.mem_map_of_mem member
          have unknown : "VV".toList ∉ metarCovers := by decide
          exact unknown (readOf.covers _ inside)
  · rintro ⟨whole, level, free⟩
    rw [groups whole level, (remarksOf_eq_iff written).mpr free]
    rfl

-----------------------------------------------------------------------------------------
-- Collectives
-----------------------------------------------------------------------------------------

/-- Reports and the text of each, up to its end. -/
abbrev WrittenCollective := List (WrittenMetar × Text)

def WrittenCollective.text (collective : WrittenCollective) : Text :=
  collective.flatMap fun (_, text) => text ++ ['=']

/-- Each report stands in its text, with any whitespace between its words. -/
def WrittenCollective.IsLaidOut (collective : WrittenCollective) : Prop :=
  ∀ report ∈ collective, tokens isAsciiWhitespace report.2 = report.1.words

/-- A bulletin of reports without issues; without any report it is none. -/
def metarBulletinOf (reports : List MetarReport)
    : Option (MetarBulletin × List ProductParseIssue) :=
  if reports ≠ [] then some (⟨reports⟩, []) else none

theorem metarBulletinOf_injective : Function.Injective metarBulletinOf := by
  intro left right same
  simp only [metarBulletinOf] at same
  split at same <;> split at same <;> simp_all

/-- A text whose words are no control characters and do not end the report. -/
theorem shown_of_words {text : Text} {words : List Text}
    (layout : tokens isAsciiWhitespace text = words) (areRemarks : ∀ word ∈ words, IsRemark word)
    : ∀ c ∈ text, isDropped c = false ∧ c ≠ '=' := by
  intro c member
  cases blank : isAsciiWhitespace c with
  | true =>
      refine ⟨by rw [isDropped, blank, Bool.not_true, Bool.and_false], ?_⟩
      rintro rfl
      exact absurd blank (by decide)
  | false =>
      obtain ⟨word, among, inside⟩ := exists_mem_tokens_iff.mpr ⟨member, blank⟩
      have isRemark := areRemarks word (layout ▸ among)
      refine ⟨by rw [isDropped, isRemark.shown c inside, Bool.false_and], ?_⟩
      rintro rfl
      exact isRemark.goesOn inside

/-- A segment with the words of a report adds the report. -/
theorem exists_addMetarSegment (written : WrittenMetar)
    : ∃ report,
        (report = written.report ↔ written.Kept)
        ∧ ∀ segment, (∀ c ∈ segment, isDropped c = false)
          → tokens isAsciiWhitespace segment = written.words
          → ∀ collective : MetarCollective,
              addMetarSegment collective segment
              = .ok { collective with
                  collectiveKind := some written.kind
                  reports := collective.reports ++ [report] } := by
  obtain ⟨body, readOf, groups, read⟩ := exists_parseMetarReportRef written
  refine ⟨_, reportOf_eq_iff written readOf groups, fun segment shown layout collective => ?_⟩
  have normalized : normalizeMetarSegment segment = joinWords written.words := by
    rw [normalizeMetarSegment_eq shown, layout]
  have blank : ' ' ∈ joinWords written.words := by
    have more : ∃ second rest, (if written.correction then ["COR".toList] else [])
        ++ [written.station] ++ written.observationTime
          :: (written.groups.words ++ written.remarkWords) = second :: rest := by
      refine List.exists_cons_of_ne_nil ?_
      simp
    obtain ⟨second, rest, split⟩ := more
    rw [WrittenMetar.words, WrittenMetar.heading, List.cons_append, split, joinWords_cons_cons]
    simp
  have other {text : Text} (free : ' ' ∉ text) : joinWords written.words ≠ text := fun same =>
    free (same ▸ blank)
  rw [addMetarSegment]
  simp only [normalized, if_neg (@other [] (by simp)),
    if_neg (@other "METAR".toList (by decide)), if_neg (@other "SPECI".toList (by decide)), read,
    ok_bind]
  rfl

/-- Segments with the words of reports add the reports, by induction on them. -/
theorem exists_foldlM_addMetarSegment (collective : List WrittenMetar)
    : ∃ reports,
        (reports = collective.map WrittenMetar.report ↔ ∀ written ∈ collective, written.Kept)
        ∧ ∀ segments : List Text, (∀ segment ∈ segments, ∀ c ∈ segment, isDropped c = false)
          → segments.map (tokens isAsciiWhitespace) = collective.map WrittenMetar.words
          → ∀ before : MetarCollective,
              ∃ collectiveKind,
                segments.foldlM addMetarSegment before
                = .ok { before with reports := before.reports ++ reports, collectiveKind } := by
  induction collective with
  | nil =>
      refine ⟨[], by simp, fun segments _ none before => ⟨before.collectiveKind, ?_⟩⟩
      obtain rfl : segments = [] := by simpa using none
      rw [List.append_nil]
      rfl
  | cons written collective ih =>
      obtain ⟨report, kept, adds⟩ := exists_addMetarSegment written
      obtain ⟨reports, keptMore, addsMore⟩ := ih
      refine ⟨report :: reports, ?_, fun segments shown layout before => ?_⟩
      · rw [List.map_cons, List.cons.injEq, kept, keptMore, List.forall_mem_cons]
      · obtain ⟨segment, segments, rfl, here, more⟩ := List.map_eq_cons_iff.mp layout
        obtain ⟨collectiveKind, read⟩ := addsMore segments
          (fun other member => shown other (by simp [member])) more
          { before with
            collectiveKind := some written.kind
            reports := before.reports ++ [report] }
        refine ⟨collectiveKind, ?_⟩
        rw [List.foldlM_cons, adds segment (shown segment (by simp)) here, ok_bind, read]
        simp

/-- The segments of a collective are the texts of its reports, by induction on it. -/
theorem splitOnP_text {collective : WrittenCollective}
    (goesOn : ∀ report ∈ collective, '=' ∉ report.2) {behind : Text} (ends : '=' ∉ behind)
    : (collective.text ++ behind).splitOnP (· = '=') = collective.map Prod.snd ++ [behind] := by
  induction collective with
  | nil =>
      refine List.splitOnP_eq_singleton fun c member => ?_
      have other : c ≠ '=' := fun same => ends (same ▸ member)
      simpa using other
  | cons report collective ih =>
      have here : ∀ c ∈ report.2, decide (c = '=') = false := by
        intro c member
        have other : c ≠ '=' := fun same => goesOn report (by simp) (same ▸ member)
        simpa using other
      have text : WrittenCollective.text (report :: collective) ++ behind
          = report.2 ++ '=' :: (WrittenCollective.text collective ++ behind) := by
        simp [WrittenCollective.text]
      rw [text, List.splitOnP_append_cons_of_forall_mem here '=' (by simp),
        ih fun other member => goesOn other (by simp [member])]
      rfl

/-- A collective is read exactly if all of its reports are kept. -/
theorem parseMetarBulletin_iff {collective : WrittenCollective} (layout : collective.IsLaidOut)
    {behind : Text} (gap : IsGap isAsciiWhitespace behind)
    : parseMetarBulletin (collective.text ++ behind)
        = .ok (metarBulletinOf (collective.map fun (written, _) => written.report))
      ↔ ∀ report ∈ collective, report.1.Kept := by
  have shownReports : ∀ report ∈ collective, ∀ c ∈ report.2, isDropped c = false ∧ c ≠ '=' :=
    fun report member => shown_of_words (layout report member) fun word => report.1.isRemark
  have shownBehind : ∀ c ∈ behind, isDropped c = false ∧ c ≠ '=' :=
    @shown_of_words behind [] (tokens_of_gap gap) (by simp)
  have shown : ∀ c ∈ collective.text ++ behind, isDropped c = false := by
    intro c member
    rw [WrittenCollective.text, List.mem_append, List.mem_flatMap] at member
    rcases member with ⟨report, among, member⟩ | member
    · rcases List.mem_append.mp member with member | member
      · exact (shownReports report among c member).1
      · obtain rfl := List.mem_singleton.mp member
        decide
    · exact (shownBehind c member).1
  have words : piecewise (· = '=') (collective.text ++ behind)
      = (collective.map Prod.fst).map WrittenMetar.words ++ [[]] := by
    rw [piecewise, splitOnP_text (fun report member inside =>
        (shownReports report member '=' inside).2 rfl) fun inside => (shownBehind '=' inside).2 rfl,
      List.map_append, List.map_map, List.map_map, List.map_singleton, tokens_of_gap gap]
    exact congrArg (· ++ [[]]) (List.map_congr_left layout)
  have content : normalizeMetarSegment (collective.text ++ behind)
      = compactAsciiWhitespace (collective.text ++ behind) := by
    rw [normalizeMetarSegment_eq shown, compactAsciiWhitespace_eq]
  have shownContent : ∀ c ∈ compactAsciiWhitespace (collective.text ++ behind),
      isDropped c = false := by
    intro c member
    rw [compactAsciiWhitespace_eq] at member
    rcases mem_joinWords member with rfl | among
    · decide
    · exact shown c (exists_mem_tokens_iff.mp among).1
  have apart : ∀ c, isAsciiWhitespace c = true → decide (c = '=') = false := by
    intro c blank
    refine decide_eq_false fun same => ?_
    rw [same] at blank
    exact absurd blank (by decide)
  have pieces := piecewise_compactAsciiWhitespace apart (collective.text ++ behind)
  rw [words, piecewise] at pieces
  obtain ⟨segments, last, split, segmentWords, lastWords⟩ := List.map_eq_append_iff.mp pieces
  obtain ⟨final, rfl, finalWords⟩ := List.map_eq_singleton_iff.mp lastWords
  have shownPieces : ∀ piece ∈ segments ++ [final], ∀ c ∈ piece, isDropped c = false := by
    intro piece among c member
    rw [← split] at among
    exact shownContent c (mem_of_mem_splitOnP among member)
  obtain ⟨reports, kept, adds⟩ := exists_foldlM_addMetarSegment (collective.map Prod.fst)
  obtain ⟨collectiveKind, read⟩ := adds segments
    (fun segment member => shownPieces segment (by simp [member])) segmentWords {}
  have finalEmpty : normalizeMetarSegment final = [] := by
    rw [normalizeMetarSegment_eq (shownPieces final (by simp)), finalWords]
    rfl
  have whole : parseMetarBulletin (collective.text ++ behind)
      = .ok (metarBulletinOf reports) := by
    rw [parseMetarBulletin, content, split, List.foldlM_append, read, ok_bind]
    simp only [List.foldlM_cons, List.foldlM_nil, addMetarSegment, finalEmpty, if_true]
    rfl
  have expected : collective.map (fun report => report.1.report)
      = (collective.map Prod.fst).map WrittenMetar.report := by
    rw [List.map_map]
    rfl
  rw [whole, Except.ok.injEq, metarBulletinOf_injective.eq_iff, expected, kept, List.forall_mem_map]

-----------------------------------------------------------------------------------------
-- A visibility of two words
-----------------------------------------------------------------------------------------

/-- A report with this visibility. -/
def sampleMetar (visibility : WrittenVisibility) : WrittenMetar where
  kind := .speci
  correction := true
  station := "KDSM".toList
  time := ⟨"070254".toList, by decide, rfl⟩
  groups := {
    wind := some ⟨some ⟨"330".toList, by decide, rfl⟩, .two ⟨"07".toList, by decide, rfl⟩, none⟩
    visibility := some visibility
    weather := [⟨.light, [.ra], by decide, by decide⟩]
    sky := [.layer .few ⟨"020".toList, by decide, rfl⟩ (some .towering)]
    temperature := ⟨true, ⟨"09".toList, by decide, rfl⟩⟩
    dewpoint := ⟨true, ⟨"14".toList, by decide, rfl⟩⟩
    altimeter := .inches ⟨"3017".toList, by decide, rfl⟩ }
  remarks := some ["AO2".toList]
  isStation := by decide
  remarked := by
    intro remarks member
    obtain rfl : ["AO2".toList] = remarks := by simpa using member
    exact ⟨by decide, fun word member => by
      obtain rfl := List.mem_singleton.mp member
      exact ⟨by decide, by decide, by decide, by decide⟩⟩

def oneAndAHalf : WrittenVisibility :=
  .mixed ⟨1, Nat.one_ne_zero, ⟨['1'], by decide, rfl⟩⟩
    ⟨1, Nat.one_ne_zero, ⟨['1'], by decide, rfl⟩⟩ ⟨1, Nat.one_ne_zero, ⟨['2'], by decide, rfl⟩⟩

/-- Two reports with visibilities of one word, the first one broken into two lines. -/
def sampleCollective : WrittenCollective := [
  (sampleMetar .cavok, "SPECI COR KDSM 070254Z 33007KT CAVOK\n".toList
    ++ "  -RA FEW020TCU M09/M14 A3017 RMK AO2".toList),
  ({ sampleMetar .cavok with station := "KORD".toList, isStation := by decide },
    "\nSPECI COR KORD 070254Z 33007KT CAVOK -RA FEW020TCU M09/M14 A3017 RMK AO2".toList)
]

/-- Both are read, each up to its `=`. -/
theorem parseMetarBulletin_sample
    : sampleCollective.IsLaidOut
      ∧ parseMetarBulletin (sampleCollective.text ++ "\n".toList)
        = .ok (metarBulletinOf (sampleCollective.map fun (written, _) => written.report)) := by
  have layout : sampleCollective.IsLaidOut := by
    intro report member
    rcases List.mem_pair.mp member with rfl | rfl <;> decide +kernel
  refine ⟨layout, (parseMetarBulletin_iff layout (by decide)).mpr ?_⟩
  intro report member
  have kept : (sampleMetar .cavok).Kept := by
    refine ⟨by simp [sampleMetar], ?_, ?_⟩
    · intro sky among
      obtain rfl := List.mem_singleton.mp among
      exact id
    · intro remarks among
      obtain rfl : ["AO2".toList] = remarks := by simpa [sampleMetar] using among
      decide
  rcases List.mem_pair.mp member with rfl | rfl
  · exact kept
  · exact ⟨kept.visibility, kept.sky, kept.remarks⟩

/-- Of a visibility of two words the first is lost. -/
theorem whole_miles_lost
    : ¬ ∀ (collective : WrittenCollective) (behind : Text),
        collective.IsLaidOut → IsGap isAsciiWhitespace behind
        → parseMetarBulletin (collective.text ++ behind)
          = .ok (metarBulletinOf (collective.map fun (written, _) => written.report)) := by
  intro read
  have whole := read [(sampleMetar oneAndAHalf,
    "SPECI COR KDSM 070254Z 33007KT 1 1/2SM -RA FEW020TCU M09/M14 A3017 RMK AO2".toList)]
    "\n".toList (by
      intro report member
      obtain rfl := List.mem_singleton.mp member
      decide +kernel) (by decide)
  have lost : (fun bulletin => bulletin.map fun (bulletin, _) =>
        bulletin.reports.map MetarReport.visibility)
      <$> parseMetarBulletin (WrittenCollective.text [(sampleMetar oneAndAHalf,
        "SPECI COR KDSM 070254Z 33007KT 1 1/2SM -RA FEW020TCU M09/M14 A3017 RMK AO2".toList)]
        ++ "\n".toList)
      = .ok (some [some "1/2SM".toList]) := by
    decide +kernel
  rw [whole] at lost
  have said : ((fun bulletin => bulletin.map fun (bulletin, _) =>
        bulletin.reports.map MetarReport.visibility)
      (metarBulletinOf [(sampleMetar oneAndAHalf).report]))
      = some [some "1 1/2SM".toList] := by
    decide +kernel
  exact absurd (said.symm.trans (Except.ok.inj lost)) (by decide)

end Emwin.Parser
