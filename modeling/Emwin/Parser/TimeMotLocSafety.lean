import Emwin.Parser.LatLonSafety
import Emwin.Parser.TimeMotLoc

/-! Storm motion lines in every text: what is cut around their markers and in their times is safe,
and their coordinates are read exactly if they may be cut between characters.
-/

namespace Emwin.Parser
open Library

theorem timeMotLocMarker_ascii
    : ∀ byte ∈ toUtf8 timeMotLocMarker, byteUppercase byte < 0x80 := by decide

/-- The line is cut behind a marker. -/
theorem returns_sliceFrom_behind {search : Text} {position : Nat}
    (found : asciiFindCaseInsensitive search timeMotLocMarker = some position)
    : Returns (sliceFrom (position + 16) search) := by
  obtain ⟨front, word, back, rfl, rfl, same⟩ :=
    exists_marker (by decide) timeMotLocMarker_ascii found
  have size : utf8Len word = 16 := by
    have lengths := congrArg List.length same
    rw [List.length_map, List.length_map, length_toUtf8] at lengths
    exact lengths
  refine ⟨back, ?_⟩
  rw [← List.append_assoc, ← size, ← utf8Len_append]
  exact sliceFrom_append _ _

/-- The markers of a line are counted, by induction on what is left of it. -/
theorem returns_countMarkersIn (search : Text) : Returns (countMarkersIn search) := by
  fun_induction countMarkersIn search with
  | case1 search none => exact returns_pure _
  | case2 search position found panic cut =>
      obtain ⟨rest, here⟩ := returns_sliceFrom_behind found
      rw [here] at cut
      cases cut
  | case3 search position found rest cut ih => exact ih.bind fun _ _ => returns_pure _

theorem returns_countMarkers (text : Text) : Returns (countMarkers text) :=
  map_returns_iff.mpr (returns_mapM_iff.mpr fun search _ => returns_countMarkersIn search)

-----------------------------------------------------------------------------------------
-- Candidates
-----------------------------------------------------------------------------------------

/-- The shape of a time is four bytes and a `Z`, which may be cut off. -/
theorem parseTimeShape_spec (token : Text)
    : ∃ shaped,
        parseTimeShape token = .ok shaped
        ∧ (shaped = true → ∃ digits, token = digits ++ ['Z'] ∧ utf8Len digits = 4
          ∧ digits.all Char.isDigit = true) := by
  unfold parseTimeShape
  split
  · exact ⟨false, rfl, by simp⟩
  · next guard =>
      rw [not_or, not_not, not_not] at guard
      obtain ⟨digits, rfl⟩ := List.getLast?_eq_some_iff.mp guard.2
      have four : utf8Len digits = 4 := by
        have size := guard.1
        rw [utf8Len_append, show utf8Len ['Z'] = 1 from rfl] at size
        omega
      have cut := sliceTo_append digits ['Z']
      rw [four] at cut
      exact ⟨digits.all Char.isDigit, by rw [cut]; rfl, fun all => ⟨digits, rfl, four, all⟩⟩

theorem returns_parseTimeShape (token : Text) : Returns (parseTimeShape token) := by
  obtain ⟨shaped, read, -⟩ := parseTimeShape_spec token
  exact ⟨shaped, read⟩

theorem returns_parseTimeToken (calendar : Calendar) (token : Text) (referenceTime : UtcTime)
    : Returns (parseTimeToken calendar token referenceTime) := by
  obtain ⟨shaped, read, spec⟩ := parseTimeShape_spec token
  unfold parseTimeToken
  rw [read, ok_bind]
  cases shaped with
  | false => exact returns_pure _
  | true =>
      obtain ⟨digits, rfl, four, all⟩ := spec rfl
      have ascii : IsAscii (digits ++ ['Z']) := (isAscii_of_digits all).append (by decide)
      have length : (digits ++ ['Z']).length = 5 := by
        rw [List.length_append, ← (isAscii_of_digits all).utf8Len_eq, four]
        rfl
      have number {start stop : Nat} (order : start ≤ stop) (fits : stop ≤ 5)
          : Returns (sliceNumber start stop (digits ++ ['Z'])) := by
        rw [sliceNumber, ascii.slice_eq order (by omega)]
        exact returns_pure _
      refine (number (by omega) (by omega)).bind fun hour _ => ?_
      cases hour with
      | none => exact returns_pure _
      | some hour => exact (number (by omega) (by omega)).bind fun _ _ => returns_pure _

theorem returns_candidateHasParseablePrefix (raw : Text)
    : Returns (candidateHasParseablePrefix raw) := by
  unfold candidateHasParseablePrefix
  split
  · dsimp only
    split
    · exact returns_parseTimeShape _
    · exact returns_pure _
  · exact returns_pure _

/-- Lines are joined in every text, by induction on them. -/
theorem returns_joinTmlLines (raw : Text) (lines : List Text)
    : Returns (joinTmlLines raw lines) := by
  induction lines generalizing raw with
  | nil => exact returns_pure _
  | cons line rest ih =>
      rw [joinTmlLines]
      dsimp only
      split
      · exact returns_pure _
      · generalize (if raw = [] then raw else raw ++ [' ']) ++ trim line = joined
        refine (returns_candidateHasParseablePrefix joined).bind fun parseable _ => ?_
        split
        · exact returns_pure _
        · exact (ih joined).bind fun _ _ => returns_pure _

/-- The candidates are found in every text, by induction on its lines. -/
theorem returns_tmlCandidatesFrom (taken : Nat) (lines : List Text)
    : Returns (tmlCandidatesFrom taken lines) := by
  induction lines generalizing taken with
  | nil => cases taken <;> exact returns_pure _
  | cons line rest ih =>
      cases taken with
      | succ taken => exact ih taken
      | zero =>
          rw [tmlCandidatesFrom]
          split
          · exact ih 0
          · next markerPosition found =>
              have collected : Returns (collectTimeMotLocCandidate line markerPosition rest) :=
                (returns_sliceFrom_marker (by decide) timeMotLocMarker_ascii found).bind
                  fun start _ => (returns_joinTmlLines _ _).bind fun joined _ =>
                    (returns_candidateHasParseablePrefix _).bind fun _ _ => returns_pure _
              exact collected.bind fun _ _ => (ih _).bind fun _ _ => returns_pure _

-----------------------------------------------------------------------------------------
-- Coordinates
-----------------------------------------------------------------------------------------

section Coordinates

variable (F : Type) [Measure F]

theorem isCharBoundary_of_sliceMeasure {start stop : Nat} {text : Text}
    (read : Returns (sliceMeasure F start stop text))
    : isCharBoundary stop text = true := by
  obtain ⟨part, cut, -⟩ := returns_bind_iff.mp read
  obtain ⟨front, here, -⟩ := exceptBind_ok_iff.mp cut
  exact returns_sliceTo_iff.mp ⟨front, here⟩

theorem returns_sliceMeasure_front_iff {stop : Nat} {text : Text}
    : Returns (sliceMeasure F 0 stop text) ↔ isCharBoundary stop text = true := by
  refine ⟨isCharBoundary_of_sliceMeasure F, fun boundary => ?_⟩
  obtain ⟨front, here⟩ := returns_sliceTo_iff.mpr boundary
  rw [sliceMeasure, slice, here, ok_bind, sliceFrom_zero, ok_bind]
  exact returns_pure _

/-- A part between two boundaries is read. -/
theorem returns_sliceMeasure_between {start stop : Nat} {text : Text} (order : start ≤ stop)
    (starts : isCharBoundary start text = true) (stops : isCharBoundary stop text = true)
    : Returns (sliceMeasure F start stop text) := by
  obtain ⟨front, back, rfl, rfl⟩ := isCharBoundary_iff.mp stops
  rw [isCharBoundary_append order, ← returns_sliceFrom_iff] at starts
  rw [sliceMeasure, slice, sliceTo_append, ok_bind]
  exact starts.bind fun _ _ => returns_pure _

/-- The digits of a coordinate are cut between characters, by the number of their bytes. -/
def DegreesCut (digits : Text) (isLat : Bool) : Prop :=
  (utf8Len digits = 4 → isCharBoundary 2 digits = true)
  ∧ (utf8Len digits = 5 ∨ utf8Len digits = 6
    → isCharBoundary (degreesDigits isLat) digits = true)
  ∧ (utf8Len digits = 8
    → isCharBoundary (degreesDigits isLat) digits = true
      ∧ ∀ degrees, sliceMeasure F 0 (degreesDigits isLat) digits = .ok (some degrees)
        → isCharBoundary (degreesDigits isLat + 2) digits = true)

theorem degreesDigits_le (isLat : Bool) : degreesDigits isLat ≤ 3 := by cases isLat <;> decide

/-- A first part is read up to a boundary, and then what follows it comes back. -/
theorem returns_sliceMeasure_bind_iff {place : Nat} {text : Text}
    {next : Option F → Except Panic (Option F)}
    (later : ∀ value, isCharBoundary place text = true → Returns (next value))
    : Returns (sliceMeasure F 0 place text >>= next) ↔ isCharBoundary place text = true := by
  constructor
  · intro returns
    obtain ⟨value, here, -⟩ := returns_bind_iff.mp returns
    exact isCharBoundary_of_sliceMeasure F ⟨value, here⟩
  · intro boundary
    exact ((returns_sliceMeasure_front_iff F).mpr boundary).bind fun value _ => later value boundary

theorem returns_tmlDegrees_iff (digits : Text) (isLat : Bool)
    : Returns (tmlDegrees (F := F) digits isLat) ↔ DegreesCut F digits isLat := by
  have width := degreesDigits_le isLat
  unfold tmlDegrees DegreesCut
  dsimp only
  split
  · next four =>
      refine (returns_sliceMeasure_bind_iff F fun degrees boundary => ?_).trans (by simp [four])
      cases degrees with
      | none => exact returns_pure _
      | some degrees =>
          exact (returns_sliceMeasure_between F (by omega) boundary (isCharBoundary_end four)).bind
            fun _ _ => returns_pure _
  · next five =>
      refine (returns_sliceMeasure_bind_iff F fun degrees boundary => ?_).trans (by simp [five])
      cases degrees with
      | none => exact returns_pure _
      | some degrees =>
          exact (returns_sliceMeasure_between F (by omega) boundary (isCharBoundary_end five)).bind
            fun _ _ => returns_pure _
  · next six =>
      refine (returns_sliceMeasure_bind_iff F fun degrees boundary => ?_).trans (by simp [six])
      cases degrees with
      | none => exact returns_pure _
      | some degrees =>
          exact (returns_sliceMeasure_between F (by omega) boundary (isCharBoundary_end six)).bind
            fun _ _ => returns_pure _
  · next eight =>
      simp only [eight, Nat.reduceEqDiff, false_or, false_imp_iff, true_imp_iff, true_and]
      constructor
      · intro returns
        obtain ⟨degrees, here, later⟩ := returns_bind_iff.mp returns
        refine ⟨isCharBoundary_of_sliceMeasure F ⟨degrees, here⟩, fun value read => ?_⟩
        obtain rfl := Except.ok.inj (here.symm.trans read)
        obtain ⟨minutes, cut, -⟩ := returns_bind_iff.mp later
        exact isCharBoundary_of_sliceMeasure F ⟨minutes, cut⟩
      · rintro ⟨first, cuts⟩
        obtain ⟨degrees, here⟩ := (returns_sliceMeasure_front_iff F).mpr first
        refine returns_bind_iff.mpr ⟨degrees, here, ?_⟩
        cases degrees with
        | none => exact returns_pure _
        | some degrees =>
            have second := cuts degrees here
            refine (returns_sliceMeasure_between F (by omega) first second).bind fun minutes _ => ?_
            cases minutes with
            | none => exact returns_pure _
            | some minutes =>
                exact (returns_sliceMeasure_between F (by omega) second
                  (isCharBoundary_end eight)).bind fun _ _ => returns_pure _
  · next notFour notFive notSix notEight =>
      exact iff_of_true (returns_pure _)
        ⟨fun four => (notFour four).elim, fun either => (either.elim notFive notSix).elim,
          fun eight => (notEight eight).elim⟩

/-- A coordinate is cut between characters behind its sign. -/
def CoordinateCuts (text : Text) (isLat : Bool) : Prop :=
  DegreesCut F ((trim text).dropWhile (· = '-')) isLat

theorem returns_tmlParseCoordinate_iff (text : Text) (isLat : Bool)
    : Returns (tmlParseCoordinate (F := F) text isLat) ↔ CoordinateCuts F text isLat := by
  rw [CoordinateCuts, ← returns_tmlDegrees_iff, tmlParseCoordinate]
  exact returns_bind_of_total fun _ => returns_pure _

theorem returns_readsTml_iff (text : Text) (isLat : Bool)
    : Returns (readsTml (F := F) text isLat) ↔ CoordinateCuts F text isLat :=
  map_returns_iff.trans (returns_tmlParseCoordinate_iff F text isLat)

/-- A token of eight bytes at an even place is cut in a latitude and a longitude between
characters, and these are cut so too.
-/
def PackedCuts (normalized : List Text) (token : Text) : Prop :=
  utf8Len token = 8 → normalized.length % 2 = 0
  → ∃ lat lon,
      token = lat ++ lon ∧ utf8Len lat = 4 ∧ CoordinateCuts F lat true
      ∧ (readsTml (F := F) lat true = .ok true → CoordinateCuts F lon false)

theorem returns_tmlSplit_iff (normalized : List Text) (token : Text)
    : Returns (tmlSplitPackedCoordinatePair (F := F) normalized token)
      ↔ PackedCuts F normalized token := by
  unfold tmlSplitPackedCoordinatePair PackedCuts
  split
  · next guard =>
      refine iff_of_true (returns_pure _) fun eight even => ?_
      rcases guard with other | odd
      · exact absurd eight other
      · exact absurd even odd
  · next guard =>
      rw [not_or, not_not, not_not] at guard
      constructor
      · rintro returns - -
        obtain ⟨lat, cut, later⟩ := returns_bind_iff.mp returns
        obtain ⟨lon, rfl, four⟩ := sliceTo_eq_ok_iff.mp cut
        have rest := sliceFrom_append lat lon
        rw [four] at rest
        rw [rest, ok_bind] at later
        obtain ⟨readsLat, here, later⟩ := returns_bind_iff.mp later
        refine ⟨lat, lon, rfl, four, (returns_readsTml_iff F lat true).mp ⟨_, here⟩, ?_⟩
        intro read
        obtain rfl := Except.ok.inj (here.symm.trans read)
        obtain ⟨readsLon, there, -⟩ := returns_bind_iff.mp later
        exact (returns_readsTml_iff F lon false).mp ⟨_, there⟩
      · intro cuts
        obtain ⟨lat, lon, rfl, four, latCuts, lonCuts⟩ := cuts guard.1 guard.2
        have first := sliceTo_append lat lon
        have rest := sliceFrom_append lat lon
        rw [four] at first rest
        rw [first, ok_bind, rest, ok_bind]
        obtain ⟨readsLat, here⟩ := (returns_readsTml_iff F lat true).mpr latCuts
        rw [here, ok_bind]
        cases readsLat with
        | false => exact returns_pure _
        | true =>
            obtain ⟨readsLon, there⟩ := (returns_readsTml_iff F lon false).mpr (lonCuts here)
            rw [there]
            cases readsLon <;> exact returns_pure _

/-- The tokens behind those already taken are cut between characters, up to those that cannot be
put together.
-/
def TokensCut (normalized : List Text) : (taken : Nat) → List Text → Prop
  | _, [] => True
  | taken + 1, _ :: rest => TokensCut normalized taken rest
  | 0, first :: rest =>
      ∀ token taken, consumeWords (fun _ => true) [] first rest = some (token, taken)
        → PackedCuts F normalized token
          ∧ ∀ pair, tmlSplitPackedCoordinatePair (F := F) normalized token = .ok pair
            → TokensCut (normalized ++ pair.elim [token] fun halves => [halves.1, halves.2]) taken
                rest

/-- Tokens are put together, by induction on those that are left. -/
theorem returns_normalizeTmlFrom_iff (normalized : List Text) (taken : Nat) (tokens : List Text)
    : Returns (normalizeTmlFrom (F := F) normalized taken tokens)
      ↔ TokensCut F normalized taken tokens := by
  induction tokens generalizing normalized taken with
  | nil => cases taken <;> exact iff_of_true (returns_pure _) trivial
  | cons first rest ih =>
      cases taken with
      | succ taken => exact ih normalized taken
      | zero =>
          rw [normalizeTmlFrom, TokensCut]
          split
          · next none =>
              exact iff_of_true (returns_pure _) fun token taken found => by simp [none] at found
          · next token taken found =>
              rw [returns_bind_iff]
              constructor
              · rintro ⟨pair, split, later⟩ other count same
                obtain ⟨rfl, rfl⟩ := Prod.mk.inj (Option.some.inj (found.symm.trans same))
                refine ⟨(returns_tmlSplit_iff F _ _).mp ⟨pair, split⟩, fun again read => ?_⟩
                obtain rfl := Except.ok.inj (split.symm.trans read)
                rw [← ih]
                cases pair <;> exact later
              · intro cuts
                obtain ⟨packed, later⟩ := cuts token taken found
                obtain ⟨pair, split⟩ := (returns_tmlSplit_iff F _ _).mpr packed
                have rest := (ih _ _).mpr (later pair split)
                refine ⟨pair, split, ?_⟩
                cases pair <;> exact rest

/-- The pairs of tokens are cut between characters, up to the first one that is no coordinate. -/
def PointsCut : List Text → Prop
  | latToken :: lonToken :: rest =>
      CoordinateCuts F latToken true
      ∧ (readsTml (F := F) latToken true = .ok true
        → CoordinateCuts F lonToken false
          ∧ (readsTml (F := F) lonToken false = .ok true → PointsCut rest))
  | _ => True

theorem readsTml_of_ok {text : Text} {isLat : Bool} {value : Option F}
    (read : tmlParseCoordinate (F := F) text isLat = .ok value)
    : readsTml (F := F) text isLat = .ok value.isSome := by
  rw [readsTml, read]
  rfl

/-- Points are read, by induction on the pairs. -/
theorem returns_tmlPoints_iff (raw : Text) (tokens : List Text)
    : Returns (tmlPoints (F := F) raw tokens) ↔ PointsCut F tokens := by
  fun_induction PointsCut F tokens with
  | case1 latToken lonToken rest ih =>
      rw [tmlPoints, returns_bind_iff, ← returns_tmlParseCoordinate_iff,
        ← returns_tmlParseCoordinate_iff]
      constructor
      · rintro ⟨lat, here, later⟩
        refine ⟨⟨lat, here⟩, fun read => ?_⟩
        rw [readsTml_of_ok F here] at read
        obtain ⟨lat, rfl⟩ := Option.isSome_iff_exists.mp (Except.ok.inj read)
        obtain ⟨lon, there, later⟩ := returns_bind_iff.mp later
        refine ⟨⟨lon, there⟩, fun read => ?_⟩
        rw [readsTml_of_ok F there] at read
        obtain ⟨lon, rfl⟩ := Option.isSome_iff_exists.mp (Except.ok.inj read)
        obtain ⟨points, more, -⟩ := returns_bind_iff.mp later
        exact ih.mp ⟨points, more⟩
      · rintro ⟨⟨lat, here⟩, cuts⟩
        refine ⟨lat, here, ?_⟩
        cases lat with
        | none => exact returns_pure _
        | some lat =>
            obtain ⟨⟨lon, there⟩, cuts⟩ := cuts (readsTml_of_ok F here)
            refine returns_bind_iff.mpr ⟨lon, there, ?_⟩
            cases lon with
            | none => exact returns_pure _
            | some lon =>
                exact (ih.mpr (cuts (readsTml_of_ok F there))).bind fun _ _ => returns_pure _
  | case2 tokens few =>
      refine iff_of_true ?_ trivial
      unfold tmlPoints
      split
      · next lat lon rest => exact absurd rfl (few lat lon rest)
      · exact returns_pure _

theorem pointsCut_of_few {tokens : List Text} (few : tokens.length < 2) : PointsCut F tokens := by
  rcases tokens with _ | ⟨first, _ | ⟨second, rest⟩⟩
  · trivial
  · trivial
  · simp only [List.length_cons] at few
    omega

/-- The coordinates of a line are cut between characters; one without a partner is dropped. -/
def EntryCuts (tokens : List Text) : Prop :=
  TokensCut F [] 0 tokens
  ∧ ∀ coordTokens, normalizeTmlFrom (F := F) [] 0 tokens = .ok (some coordTokens)
    → PointsCut F (if coordTokens.length % 2 ≠ 0 then coordTokens.dropLast else coordTokens)

theorem returns_tmlEntry_iff (raw : Text) (timeUtc : UtcTime) (direction speed : Nat)
    (tokens : List Text)
    : Returns (tmlEntry (F := F) raw timeUtc direction speed tokens) ↔ EntryCuts F tokens := by
  rw [EntryCuts, ← returns_normalizeTmlFrom_iff, tmlEntry, returns_bind_iff]
  constructor
  · rintro ⟨result, here, later⟩
    refine ⟨⟨result, here⟩, fun coordTokens read => ?_⟩
    obtain rfl := Except.ok.inj (here.symm.trans read)
    dsimp only at later
    generalize (if coordTokens.length % 2 ≠ 0 then coordTokens.dropLast else coordTokens) = left
      at later ⊢
    split at later
    · next few => exact pointsCut_of_few F few
    · obtain ⟨points, more, -⟩ := returns_bind_iff.mp later
      exact (returns_tmlPoints_iff F raw _).mp ⟨points, more⟩
  · rintro ⟨⟨result, here⟩, cuts⟩
    refine ⟨result, here, ?_⟩
    cases result with
    | none => exact returns_pure _
    | some coordTokens =>
        have kept := (returns_tmlPoints_iff F raw _).mpr (cuts coordTokens here)
        dsimp only
        generalize (if coordTokens.length % 2 ≠ 0 then coordTokens.dropLast else coordTokens) = left
          at kept ⊢
        split
        · exact returns_pure _
        · exact kept.bind fun _ _ => returns_pure _

variable (calendar : Calendar) (referenceTime : UtcTime)

/-- The coordinates behind a readable time, direction and speed are cut between characters. -/
def LineCuts (raw : Text) : Prop :=
  ∀ marker timeToken timeUtc tokens direction later speed coordinates,
    splitWhitespace (trim raw) = marker :: timeToken :: tokens
    → eqIgnoreAsciiCase marker timeMotLocMarker = true
    → parseTimeToken calendar timeToken referenceTime = .ok (some timeUtc)
    → parseDegreesToken tokens = (some direction, later)
    → parseSpeedToken later = (some speed, coordinates)
    → EntryCuts F coordinates

/-- Of a line with a readable time only what is behind it is left. -/
theorem lineCuts_iff {raw marker timeToken : Text} {tokens : List Text} {timeUtc : UtcTime}
    (words : splitWhitespace (trim raw) = marker :: timeToken :: tokens)
    (named : eqIgnoreAsciiCase marker timeMotLocMarker = true)
    (timed : parseTimeToken calendar timeToken referenceTime = .ok (some timeUtc))
    : LineCuts F calendar referenceTime raw
      ↔ ∀ direction later speed coordinates,
          parseDegreesToken tokens = (some direction, later)
          → parseSpeedToken later = (some speed, coordinates)
          → EntryCuts F coordinates := by
  constructor
  · intro cuts direction later speed coordinates
    exact cuts marker timeToken timeUtc tokens direction later speed coordinates words named timed
  · rintro cuts _ _ _ _ direction later speed coordinates same - -
    obtain ⟨rfl, rest⟩ := List.cons.inj (words.symm.trans same)
    obtain ⟨rfl, rfl⟩ := List.cons.inj rest
    exact cuts direction later speed coordinates

/-- A line without a marker or a readable time is cut nowhere. -/
theorem lineCuts_of_unread {raw : Text}
    (unread : ∀ marker timeToken tokens timeUtc,
      splitWhitespace (trim raw) = marker :: timeToken :: tokens
      → eqIgnoreAsciiCase marker timeMotLocMarker = true
      → parseTimeToken calendar timeToken referenceTime ≠ .ok (some timeUtc))
    : LineCuts F calendar referenceTime raw :=
  fun marker timeToken timeUtc tokens _ _ _ _ words named timed =>
    absurd timed (unread marker timeToken tokens timeUtc words named)

theorem returns_parseTimeMotLocCandidate_iff (candidate : TimeMotLocCandidate)
    : Returns (parseTimeMotLocCandidate (F := F) calendar candidate referenceTime)
      ↔ LineCuts F calendar referenceTime candidate.raw := by
  unfold parseTimeMotLocCandidate
  dsimp only
  cases words : splitWhitespace (trim candidate.raw) with
  | nil =>
      exact iff_of_true (returns_pure _) (lineCuts_of_unread F calendar referenceTime
        (by simp [words]))
  | cons marker tokens =>
      dsimp only
      by_cases named : eqIgnoreAsciiCase marker timeMotLocMarker = true
      · rw [named, if_neg (by decide)]
        cases tokens with
        | nil =>
            exact iff_of_true (returns_pure _) (lineCuts_of_unread F calendar referenceTime
              (by simp [words]))
        | cons timeToken tokens =>
            obtain ⟨time, timed⟩ := returns_parseTimeToken calendar timeToken referenceTime
            dsimp only
            rw [timed, ok_bind]
            cases time with
            | none =>
                refine iff_of_true (returns_pure _) (lineCuts_of_unread F calendar referenceTime ?_)
                intro _ _ _ _ same _
                obtain ⟨rfl, rest⟩ := List.cons.inj (words.symm.trans same)
                obtain ⟨rfl, -⟩ := List.cons.inj rest
                simp [timed]
            | some timeUtc =>
                rw [lineCuts_iff F calendar referenceTime words named timed]
                dsimp only
                rcases degrees : parseDegreesToken tokens with ⟨_ | direction, later⟩
                · exact iff_of_true (returns_pure _) (by simp)
                · dsimp only
                  rcases speeds : parseSpeedToken later with ⟨_ | speed, coordinates⟩
                  · refine iff_of_true (returns_pure _) ?_
                    rintro _ _ _ _ ⟨⟩ again
                    cases speeds.symm.trans again
                  · rw [returns_tmlEntry_iff]
                    constructor
                    · rintro cuts _ _ _ _ ⟨⟩ again
                      obtain ⟨-, rfl⟩ := Prod.mk.inj (speeds.symm.trans again)
                      exact cuts
                    · exact fun cuts => cuts direction later speed coordinates rfl speeds
      · rw [Bool.not_eq_true] at named
        rw [named, if_pos (by decide)]
        refine iff_of_true (returns_pure _) (lineCuts_of_unread F calendar referenceTime ?_)
        intro _ _ _ _ same marked
        obtain ⟨rfl, -⟩ := List.cons.inj (words.symm.trans same)
        rw [named] at marked
        cases marked

/-- What the storm motion lines of a text are cut at are characters. -/
def TimeMotLocCuts (text : Text) : Prop :=
  ∀ candidates, findTimeMotLocCandidates text = .ok candidates
    → ∀ candidate ∈ candidates, LineCuts F calendar referenceTime candidate.raw

/-- The storm motion lines of a text are read exactly if their coordinates may be cut. -/
theorem returns_parseTimeMotLocEntriesWithIssues_iff (text : Text)
    : Returns (parseTimeMotLocEntriesWithIssues (F := F) calendar text referenceTime)
      ↔ TimeMotLocCuts F calendar referenceTime text := by
  obtain ⟨count, counted⟩ := returns_countMarkers text
  obtain ⟨candidates, found⟩ := returns_tmlCandidatesFrom 0 (lines text)
  have all : TimeMotLocCuts F calendar referenceTime text
      ↔ Returns (candidates.mapM fun candidate =>
          tmlOutcome candidate <$> parseTimeMotLocCandidate (F := F) calendar candidate
            referenceTime) := by
    simp only [returns_mapM_iff, map_returns_iff, returns_parseTimeMotLocCandidate_iff]
    constructor
    · exact fun cuts => cuts candidates found
    · intro cuts others same
      obtain rfl := Except.ok.inj (found.symm.trans same)
      exact cuts
  rw [all, parseTimeMotLocEntriesWithIssues, counted, ok_bind, findTimeMotLocCandidates, found,
    ok_bind]
  exact returns_bind_of_total fun _ => returns_pure _

end Coordinates

end Emwin.Parser
