import Emwin.Parser.Exact
import Emwin.Parser.LatLonSafety
import Emwin.Parser.VtecEvents

/-! Segmentation keeps the VTEC codes: each code of a line is in one segment, in order. -/

namespace Emwin.Parser
open Library

variable {F : Type} (externals : Externals F)

/-- The codes of a text, as the externals read times. -/
def codesOf (text : Text) : List VtecCode := vtecCodes externals.calendar text

theorem lineHasVtec_eq (line : Text)
    : lineHasVtec externals line = .ok !(codesOf externals line).isEmpty := by
  obtain ⟨issues, read⟩ := parseVtecCodesWithIssues_ok externals.calendar line
  rw [lineHasVtec, read]
  rfl

theorem returns_looksLikeEventContent (line : Text)
    : Returns (looksLikeEventContent externals line) := by
  obtain ⟨issues, read⟩ :=
    parseHvtecCodesWithIssues_ok externals.calendar externals.locations.nwslidEntry line
  unfold looksLikeEventContent
  rw [lineHasVtec_eq, read]
  simp only [ok_bind]
  split_ifs <;> exact returns_pure _

/-- A line that does not look like content has no codes. -/
theorem codesOf_of_not_content {line : Text}
    (skipped : looksLikeEventContent externals line = .ok false)
    : codesOf externals line = [] := by
  unfold looksLikeEventContent at skipped
  rw [lineHasVtec_eq] at skipped
  simp only [ok_bind] at skipped
  split_ifs at skipped with start has <;> try cases skipped
  all_goals simpa using has

-----------------------------------------------------------------------------------------
-- Steps
-----------------------------------------------------------------------------------------

/-- The lines that a text is split by: those without carriage returns, each without the blanks
at its end.
-/
def trimmedLines (text : Text) : List Text := (lines (normalizeReturns text)).map trimEnd

/-- Nothing that is read as a code goes over a line end. -/
def NoCrossingCode (lines : List Text) : Prop :=
  ∀ span ∈ delimited '/' (joinLines lines), '\n' ∈ span → vtecOf externals.calendar span = none

/-- What holds of the split after some lines: the open lines are the last ones, the segments and
the open lines have the codes of all of them, and each segment has some.
-/
structure Keeps (done : List Text) (state : SplitState) : Prop where
  openLines : state.current <:+ done
  codes : state.segments.flatMap (codesOf externals) ++ state.current.flatMap (codesOf externals)
    = done.flatMap (codesOf externals)
  nonempty : ∀ segment ∈ state.segments, codesOf externals segment ≠ []

/-- The codes of some of the lines, joined. -/
theorem codesOf_joinLines {done block later : List Text}
    (quiet : NoCrossingCode externals (done ++ (block ++ later)))
    : codesOf externals (joinLines block) = block.flatMap (codesOf externals) := by
  refine filterMap_delimited_intercalate (by decide) fun span member beyond => ?_
  exact quiet span (mem_delimited_block (by decide) done later member) beyond

variable {externals} {done later : List Text} {state : SplitState}

/-- The split with its open segment closed. -/
theorem pushVtecSegment_ok (nonempty : state.current ≠ [])
    : pushVtecSegment externals state
      = .ok { state with
          segments := state.segments
            ++ if (codesOf externals (joinLines state.current)).isEmpty then []
               else [joinLines state.current]
          current := [] } := by
  obtain ⟨issues, read⟩ :=
    parseVtecCodesWithIssues_ok externals.calendar (joinLines state.current)
  rw [pushVtecSegment, if_neg nonempty]
  dsimp only
  rw [read]
  change (Except.ok _ : Except Panic SplitState) = _
  unfold codesOf
  split <;> simp

/-- Closing the open segment keeps its codes; without codes it is dropped. -/
theorem Keeps.push (keeps : Keeps externals done state)
    (quiet : NoCrossingCode externals (done ++ later))
    : ∃ pushed,
        pushVtecSegment externals state = .ok pushed
        ∧ Keeps externals done pushed ∧ pushed.current = [] := by
  by_cases empty : state.current = []
  · exact ⟨state, if_pos empty, keeps, empty⟩
  · obtain ⟨before, whole⟩ := keeps.openLines
    rw [← whole, List.append_assoc] at quiet
    have joined := codesOf_joinLines externals quiet
    refine ⟨_, pushVtecSegment_ok empty, ⟨List.nil_suffix, ?_, ?_⟩, rfl⟩
    · rw [← keeps.codes, ← joined]
      cases codes : codesOf externals (joinLines state.current) with
      | nil => simp
      | cons code codes' => simp [codes]
    · intro segment member
      rcases List.mem_append.mp member with old | new
      · exact keeps.nonempty segment old
      · split at new
        · cases new
        · next some =>
            obtain rfl := List.mem_singleton.mp new
            exact fun none => some (by simp [none])

theorem Keeps.flush (keeps : Keeps externals done state)
    (quiet : NoCrossingCode externals (done ++ later))
    : ∃ flushed,
        flushSegment externals state = .ok flushed
        ∧ Keeps externals done flushed ∧ flushed.current = [] := by
  obtain ⟨pushed, closed, kept, empty⟩ := keeps.push quiet
  refine ⟨{ pushed with currentHasVtec := false, currentHasGeography := false }, ?_,
    ⟨kept.openLines, kept.codes, kept.nonempty⟩, empty⟩
  rw [flushSegment, closed]
  rfl

/-- A line without codes may be left out where no segment is open. -/
theorem Keeps.skip (keeps : Keeps externals done state) (closed : state.current = [])
    {trimmed : Text} (none : codesOf externals trimmed = [])
    : Keeps externals (done ++ [trimmed]) state where
  openLines := closed ▸ List.nil_suffix
  codes := by simp [keeps.codes, none]
  nonempty := keeps.nonempty

/-- Only what is trimmed may have no codes while the text has some. -/
theorem codesOf_of_trim {text : Text} (absent : '/' ∉ trim text) : codesOf externals text = [] :=
  vtecCodes_of_no_slash _ fun member => absent (mem_trim member (by decide))

theorem returns_isSegmentBoundary (trimmed : Text)
    : Returns (isSegmentBoundary externals state trimmed) := by
  unfold isSegmentBoundary
  rw [lineHasVtec_eq]
  simp only [ok_bind]
  split_ifs <;> exact returns_pure _

/-- A line is added to the open segment, or it has no codes. -/
theorem Keeps.add (keeps : Keeps externals done state) (trimmed : Text)
    : ∃ next,
        addLine externals state trimmed = .ok next
        ∧ Keeps externals (done ++ [trimmed]) next := by
  have added : Keeps externals (done ++ [trimmed])
      { state with
        current := state.current ++ [trimmed]
        currentHasVtec := state.currentHasVtec || !(codesOf externals trimmed).isEmpty
        currentHasGeography := state.currentHasGeography || lineHasGeography trimmed } :=
    { openLines := by
        obtain ⟨before, whole⟩ := keeps.openLines
        exact ⟨before, by rw [← whole, List.append_assoc]⟩
      codes := by simp [← keeps.codes]
      nonempty := keeps.nonempty }
  obtain ⟨content, looked⟩ := returns_looksLikeEventContent externals trimmed
  unfold addLine
  rw [looked, lineHasVtec_eq]
  by_cases closed : state.current = []
  · rw [if_pos closed]
    cases content with
    | false => exact ⟨state, rfl, keeps.skip closed (codesOf_of_not_content externals looked)⟩
    | true =>
        by_cases blank : trim trimmed = []
        · refine ⟨state, ?_, keeps.skip closed (codesOf_of_trim (by simp [blank]))⟩
          simp [Functor.map, Except.map, blank, closed, pure, Except.pure]
        · refine ⟨_, ?_, added⟩
          simp [Functor.map, Except.map, blank, pure, Except.pure]
  · rw [if_neg closed]
    refine ⟨_, ?_, added⟩
    simp [closed, pure, Except.pure]

/-- One line of the split. -/
theorem Keeps.step (keeps : Keeps externals done state) (line : Text)
    (quiet : NoCrossingCode externals (done ++ later))
    : ∃ next,
        splitStep externals state line = .ok next
        ∧ Keeps externals (done ++ [trimEnd line]) next := by
  obtain ⟨flushed, closes, closed, empty⟩ := keeps.flush quiet
  unfold splitStep
  dsimp only
  split
  · next mark =>
      have none : codesOf externals (trimEnd line) = [] := by
        refine codesOf_of_trim ?_
        rw [mark]
        decide
      exact ⟨flushed, closes, closed.skip empty none⟩
  · obtain ⟨boundary, found⟩ : Returns (isSegmentBoundary externals state (trimEnd line)) :=
      returns_isSegmentBoundary _
    rw [found]
    cases boundary with
    | true =>
        obtain ⟨next, added, kept⟩ := closed.add (trimEnd line)
        refine ⟨next, ?_, kept⟩
        simp only [ok_bind, if_true, closes]
        exact added
    | false =>
        obtain ⟨next, added, kept⟩ := keeps.add (trimEnd line)
        exact ⟨next, added, kept⟩

/-- All lines of the split, by induction on them. -/
theorem Keeps.run (keeps : Keeps externals done state) (rest : List Text)
    (quiet : NoCrossingCode externals (done ++ rest.map trimEnd))
    : ∃ last,
        rest.foldlM (splitStep externals) state = .ok last
        ∧ Keeps externals (done ++ rest.map trimEnd) last := by
  induction rest generalizing done state with
  | nil => exact ⟨state, rfl, by simpa using keeps⟩
  | cons line rest ih =>
      obtain ⟨next, step, kept⟩ := keeps.step line quiet
      obtain ⟨last, run, whole⟩ := ih kept (by simpa using quiet)
      refine ⟨last, ?_, by simpa using whole⟩
      rw [List.foldlM_cons, step]
      exact run

-----------------------------------------------------------------------------------------
-- Bodies
-----------------------------------------------------------------------------------------

/-- The blanks at the end of a line have no codes. -/
theorem codesOf_trimEnd (line : Text)
    : codesOf externals (trimEnd line) = codesOf externals line := by
  obtain ⟨blanks, whole, all⟩ := exists_trimEnd_append line
  have absent : '/' ∉ blanks := by
    intro member
    simp [isWhitespace] at all
    exact absurd (all '/' member) (by decide)
  have same : delimited '/' line = delimited '/' (trimEnd line) := by
    rw [whole, delimited_append_right absent, ← whole]
  rw [codesOf, codesOf, vtecCodes, vtecCodes, same]

variable (externals) in
/-- The split of a text without crossing codes: the segments have the codes of its lines. -/
theorem splitVtecSegments_codes {text : Text} (quiet : NoCrossingCode externals (trimmedLines text))
    : ∃ segments,
        splitVtecSegments externals text = .ok segments
        ∧ segments.flatMap (codesOf externals)
          = (lines (normalizeReturns text)).flatMap (codesOf externals)
        ∧ ∀ segment ∈ segments, codesOf externals segment ≠ [] := by
  have start : Keeps externals [] {} := ⟨List.nil_suffix, rfl, nofun⟩
  obtain ⟨last, run, kept⟩ := start.run (lines (normalizeReturns text)) quiet
  rw [List.nil_append] at kept
  obtain ⟨pushed, closed, final, empty⟩ := @Keeps.push _ _ _ [] _ kept (by rwa [List.append_nil])
  refine ⟨pushed.segments, ?_, ?_, final.nonempty⟩
  · rw [splitVtecSegments, run, ok_bind, closed]
    rfl
  · have codes := final.codes
    rw [empty, List.flatMap_nil, List.append_nil, List.flatMap_map] at codes
    simpa only [codesOf_trimEnd] using codes

section Bodies

variable [Measure F] {referenceTime : Option UtcTime}

/-- A segment with codes is kept, with its number and its codes. -/
theorem parseVtecSegment_codes {segmentIndex : Nat} {rawSegment : Text}
    {found : Option (VtecEventSegment F)} {issues : List ProductParseIssue}
    (some : codesOf externals rawSegment ≠ [])
    (read : parseVtecSegment externals referenceTime segmentIndex rawSegment = .ok (found, issues))
    : ∃ segment,
        found = .some segment ∧ segment.segmentIndex = segmentIndex
        ∧ segment.vtec = codesOf externals rawSegment := by
  obtain ⟨vtecIssues, codes⟩ := parseVtecCodesWithIssues_ok externals.calendar rawSegment
  unfold parseVtecSegment at read
  rw [codes, ok_bind] at read
  dsimp only at read
  have has : vtecCodes externals.calendar rawSegment ≠ [] := some
  rw [if_neg has] at read
  obtain ⟨ugc, -, read⟩ := exceptBind_ok_iff.mp read
  obtain ⟨⟨hvtec, hvtecIssues⟩, -, read⟩ := exceptBind_ok_iff.mp read
  obtain ⟨⟨polygons, polygonIssues⟩, -, read⟩ := exceptBind_ok_iff.mp read
  obtain ⟨timeMotLoc, -, read⟩ := exceptBind_ok_iff.mp read
  obtain ⟨⟨windHail, windHailIssues⟩, -, read⟩ := exceptBind_ok_iff.mp read
  obtain ⟨rfl, -⟩ := Prod.mk.inj (Except.ok.inj read)
  exact ⟨_, rfl, rfl, rfl⟩

/-- A segment is read unless the areas or the storm motion in it cannot be. -/
theorem returns_parseVtecSegment (segmentIndex : Nat) {rawSegment : Text}
    (readable : ∀ time ∈ referenceTime,
      Returns (parseUgcSectionsWithIssues externals.calendar externals.locations rawSegment time)
      ∧ Returns (parseTimeMotLocEntriesWithIssues (F := F) externals.calendar rawSegment time))
    : Returns (parseVtecSegment externals referenceTime segmentIndex rawSegment) := by
  have timed {α : Type} {extract : UtcTime → Except Panic (List α × List ProductParseIssue)}
      (callsFor : Text → Bool) (missing : ProductParseIssue)
      (all : ∀ time ∈ referenceTime, Returns (extract time))
      : Returns (extractWithTime referenceTime extract callsFor missing rawSegment) := by
    cases referenceTime with
    | none => exact returns_pure _
    | some time => exact (all time rfl).bind fun _ _ => returns_pure _
  obtain ⟨vtecIssues, codes⟩ := parseVtecCodesWithIssues_ok externals.calendar rawSegment
  obtain ⟨hvtecIssues, hydro⟩ :=
    parseHvtecCodesWithIssues_ok externals.calendar externals.locations.nwslidEntry rawSegment
  unfold parseVtecSegment
  rw [codes, ok_bind]
  dsimp only
  split
  · exact returns_pure _
  · refine (timed _ _ fun time present => (readable time present).1).bind fun ugc _ => ?_
    rw [hydro, ok_bind]
    refine (returns_parseLatlonPolygonsWithIssues rawSegment).bind fun polygons _ => ?_
    refine (timed _ _ fun time present => (readable time present).2).bind fun motion _ => ?_
    exact (returns_parseWindHailEntriesWithIssues _ _).bind fun tags _ => returns_pure _

/-- The segments of a parsed body; a body that is not there has none. -/
def bodySegments (body : Option (VtecEventBody F)) : List (VtecEventSegment F) :=
  (body.map VtecEventBody.segments).getD []

/-- Reading numbered segments with codes keeps all of them, by induction on the segments. -/
theorem mapM_parseVtecSegment {rawSegments : List Text} {start : Nat}
    {results : List (Option (VtecEventSegment F) × List ProductParseIssue)}
    (some : ∀ raw ∈ rawSegments, codesOf externals raw ≠ [])
    (read : (rawSegments.zipIdx start).mapM (fun (rawSegment, segmentIndex) =>
      parseVtecSegment externals referenceTime segmentIndex rawSegment) = .ok results)
    : (results.filterMap Prod.fst).map (·.vtec) = rawSegments.map (codesOf externals)
      ∧ (results.filterMap Prod.fst).map (·.segmentIndex)
        = List.range' start rawSegments.length := by
  induction rawSegments generalizing start results with
  | nil =>
      obtain rfl := Except.ok.inj read
      exact ⟨rfl, rfl⟩
  | cons raw rest ih =>
      rw [List.zipIdx_cons, List.mapM_cons] at read
      obtain ⟨⟨found, issues⟩, first, read⟩ := exceptBind_ok_iff.mp read
      obtain ⟨later, others, read⟩ := exceptBind_ok_iff.mp read
      obtain rfl := Except.ok.inj read
      obtain ⟨segment, rfl, number, codes⟩ := parseVtecSegment_codes (some raw (by simp)) first
      obtain ⟨vtec, numbers⟩ := ih (fun other member => some other (by simp [member])) others
      refine ⟨?_, ?_⟩
      · simp [codes, vtec]
      · rw [List.length_cons, List.range'_succ, ← numbers]
        simp [number]

/-- A body is read unless the areas or the storm motion of a segment cannot be. -/
theorem returns_parseVtecEventBody {text : Text} {rawSegments : List Text}
    (split : splitVtecSegments externals text = .ok rawSegments)
    (readable : ∀ raw ∈ rawSegments, ∀ time ∈ referenceTime,
      Returns (parseUgcSectionsWithIssues externals.calendar externals.locations raw time)
      ∧ Returns (parseTimeMotLocEntriesWithIssues (F := F) externals.calendar raw time))
    : Returns (parseVtecEventBodyWithIssues externals text referenceTime) := by
  unfold parseVtecEventBodyWithIssues
  rw [split, ok_bind]
  have all : Returns (rawSegments.zipIdx.mapM fun (rawSegment, segmentIndex) =>
      parseVtecSegment externals referenceTime segmentIndex rawSegment) := by
    refine returns_mapM_iff.mpr fun pair member => ?_
    have inside : pair.1 ∈ rawSegments := (List.mem_zipIdx' member).2 ▸ List.getElem_mem _
    exact returns_parseVtecSegment pair.2 (readable pair.1 inside)
  exact all.bind fun _ _ => returns_pure _

/-- The segments of a body that was read: the codes and numbers of the pieces of its text. -/
theorem parseVtecEventBody_segments {text : Text} {rawSegments : List Text}
    {body : Option (VtecEventBody F)} {issues : List ProductParseIssue}
    (split : splitVtecSegments externals text = .ok rawSegments)
    (some : ∀ raw ∈ rawSegments, codesOf externals raw ≠ [])
    (read : parseVtecEventBodyWithIssues externals text referenceTime = .ok (body, issues))
    : (bodySegments body).map (·.vtec) = rawSegments.map (codesOf externals)
      ∧ (bodySegments body).map (·.segmentIndex) = List.range rawSegments.length := by
  unfold parseVtecEventBodyWithIssues at read
  rw [split, ok_bind] at read
  obtain ⟨results, all, read⟩ := exceptBind_ok_iff.mp read
  have segments : bodySegments body = results.filterMap Prod.fst := by
    obtain ⟨rfl, -⟩ := Prod.mk.inj (Except.ok.inj read)
    cases found : results.filterMap Prod.fst <;> rfl
  rw [segments, List.range_eq_range']
  exact mapM_parseVtecSegment some all

/-- The codes of the segments of a body are those of the lines of its text, in order: none is
lost or repeated. Every segment has a code, and the segments are numbered. The body is read unless
the areas or the storm motion of a segment cannot be.
-/
theorem segments_keep_codes (externals : Externals F) {text : Text}
    (referenceTime : Option UtcTime) (quiet : NoCrossingCode externals (trimmedLines text))
    : (∃ rawSegments,
        splitVtecSegments externals text = .ok rawSegments
        ∧ ((∀ raw ∈ rawSegments, ∀ time ∈ referenceTime,
              Returns (parseUgcSectionsWithIssues externals.calendar externals.locations raw time)
              ∧ Returns
                  (parseTimeMotLocEntriesWithIssues (F := F) externals.calendar raw time))
            → Returns (parseVtecEventBodyWithIssues externals text referenceTime)))
      ∧ ∀ body issues,
          parseVtecEventBodyWithIssues externals text referenceTime = .ok (body, issues)
          → (∃ codes,
              (lines (normalizeReturns text)).mapM (parseVtecCodes externals.calendar) = .ok codes
              ∧ (bodySegments body).flatMap (·.vtec) = codes.flatten)
            ∧ (∀ segment ∈ bodySegments body, segment.vtec ≠ [])
            ∧ (bodySegments body).map (·.segmentIndex) = List.range (bodySegments body).length := by
  obtain ⟨rawSegments, split, codes, some⟩ := splitVtecSegments_codes externals quiet
  refine ⟨⟨rawSegments, split, returns_parseVtecEventBody split⟩, ?_⟩
  intro body issues read
  obtain ⟨vtec, numbers⟩ := parseVtecEventBody_segments split some read
  refine ⟨⟨(lines (normalizeReturns text)).map (codesOf externals), ?_, ?_⟩, ?_, ?_⟩
  · exact mapM_ok fun line _ => parseVtecCodes_eq externals.calendar line
  · rw [List.flatMap_def, vtec, ← List.flatMap_def, codes, List.flatMap_def]
  · intro segment member
    have listed : segment.vtec ∈ rawSegments.map (codesOf externals) :=
      vtec ▸ List.mem_map_of_mem member
    obtain ⟨raw, inside, same⟩ := List.mem_map.mp listed
    exact same ▸ some raw inside
  · have count : (bodySegments body).length = rawSegments.length := by
      simpa using congrArg List.length vtec
    rw [numbers, count]

end Bodies

-----------------------------------------------------------------------------------------
-- Carriage returns inside of codes
-----------------------------------------------------------------------------------------

/-- No catalogs. -/
def bareExternals : Externals ℚ where
  calendar := bareCalendar
  locations := ⟨fun _ => none, fun _ => none, fun _ => none⟩
  legacyMatches _ := []

/-- Two segments, each with one code that has no times. -/
def twoSegments : Text :=
  "IAC153-\n/O.NEW.KDMX.TO.W.0123.000000T0000Z-000000T0000Z/\nFirst.\n\n$$\n\n".toList
  ++ "IAC155-\n/O.CON.KDMX.TO.W.0124.000000T0000Z-000000T0000Z/\nSecond.\n".toList

/-- A code with a carriage return inside of it. -/
def brokenCode : Text := "/O.NEW\r.KDMX.TO.W.0123.000000T0000Z-000000T0000Z/".toList

instance (lines : List Text) : Decidable (NoCrossingCode bareExternals lines) :=
  inferInstanceAs (Decidable (∀ span ∈ _, _ → _))

/-- The body of the two segments is returned, with the code of each. -/
theorem twoSegments_kept
    : NoCrossingCode bareExternals (trimmedLines twoSegments)
      ∧ ∃ body issues codes,
          parseVtecEventBodyWithIssues bareExternals twoSegments none = .ok (body, issues)
          ∧ (lines (normalizeReturns twoSegments)).mapM (parseVtecCodes bareExternals.calendar)
            = .ok codes
          ∧ (bodySegments body).flatMap (·.vtec) = codes.flatten
          ∧ codes.flatten.length = 2
          ∧ (bodySegments body).map (·.segmentIndex) = [0, 1] := by
  have quiet : NoCrossingCode bareExternals (trimmedLines twoSegments) := by decide +kernel
  obtain ⟨⟨_, _, returns⟩, keeps⟩ := segments_keep_codes bareExternals none quiet
  obtain ⟨⟨body, issues⟩, read⟩ := returns nofun
  obtain ⟨⟨codes, parsed, same⟩, -, numbers⟩ := keeps body issues read
  have counted : codes.flatten.length = 2 := by
    have found : ((lines (normalizeReturns twoSegments)).mapM
        (parseVtecCodes bareExternals.calendar)).map (fun codes => codes.flatten.length)
        = .ok 2 := by
      decide +kernel
    rw [parsed] at found
    exact Except.ok.inj found
  have numbered : List.range (bodySegments body).length = [0, 1] := by
    obtain ⟨pieces, divided, -, coded⟩ := splitVtecSegments_codes bareExternals quiet
    have two : (splitVtecSegments bareExternals twoSegments).map List.length = .ok 2 := by
      decide +kernel
    rw [divided] at two
    have kept := congrArg List.length (parseVtecEventBody_segments divided coded read).1
    rw [List.length_map, List.length_map, Except.ok.inj two] at kept
    rw [kept]
    rfl
  exact ⟨quiet, body, issues, codes, read, parsed, same, counted, numbers.trans numbered⟩

/-- The lines of the text itself may have carriage returns inside of codes, which the segments
do not have.
-/
theorem segments_differ_from_returns
    : ¬ ∀ (externals : Externals ℚ) (text : Text) (referenceTime : Option UtcTime),
        NoCrossingCode externals (trimmedLines text)
        → ∀ body issues codes,
            parseVtecEventBodyWithIssues externals text referenceTime = .ok (body, issues)
            → (lines text).mapM (parseVtecCodes externals.calendar) = .ok codes
            → (bodySegments body).flatMap (·.vtec) = codes.flatten := by
  intro all
  have quiet : NoCrossingCode bareExternals (trimmedLines brokenCode) := by decide +kernel
  obtain ⟨rawSegments, split, codes, some⟩ := splitVtecSegments_codes bareExternals quiet
  obtain ⟨⟨body, issues⟩, read⟩
      : Returns (parseVtecEventBodyWithIssues bareExternals brokenCode none) :=
    returns_parseVtecEventBody split nofun
  have vtec := (parseVtecEventBody_segments split some read).1
  have equal := all bareExternals brokenCode none quiet body issues _ read
    (mapM_ok fun line _ => parseVtecCodes_eq bareExternals.calendar line)
  rw [List.flatMap_def, vtec, ← List.flatMap_def, codes] at equal
  revert equal
  decide +kernel

end Emwin.Parser
