import Emwin.Parser.LatLon

/-! Polygons are read from every text: all that is cut in a block are tokens of digits. -/

namespace Emwin.Parser
open Library

variable {F : Type} [Measure F]

-----------------------------------------------------------------------------------------
-- Markers
-----------------------------------------------------------------------------------------

/-- The line is cut in front of a marker. -/
theorem returns_sliceFrom_marker {line needle : Text} {position : Nat} (nonempty : needle ≠ [])
    (ascii : ∀ byte ∈ toUtf8 needle, byteUppercase byte < 0x80)
    (found : asciiFindCaseInsensitive line needle = some position)
    : Returns (sliceFrom position line) := by
  obtain ⟨front, word, back, rfl, rfl, -⟩ := exists_marker nonempty ascii found
  exact ⟨_, sliceFrom_append _ _⟩

theorem latlonMarker_ascii : ∀ byte ∈ toUtf8 latlonMarker, byteUppercase byte < 0x80 := by decide

/-- The candidates are found in every text, by induction on its lines. -/
theorem returns_latlonCandidatesFrom (taken : Nat) (lines : List Text)
    : Returns (latlonCandidatesFrom taken lines) := by
  induction lines generalizing taken with
  | nil => cases taken <;> exact returns_pure _
  | cons line rest ih =>
      cases taken with
      | succ taken => exact ih taken
      | zero =>
          rw [latlonCandidatesFrom]
          split
          · exact ih 0
          · next markerPosition found =>
              have cut : Returns (collectLatlonCandidate line markerPosition rest) :=
                (returns_sliceFrom_marker (by decide) latlonMarker_ascii found).bind
                  fun _ _ => returns_pure _
              exact cut.bind fun _ _ => (ih _).bind fun _ _ => returns_pure _

-----------------------------------------------------------------------------------------
-- Tokens
-----------------------------------------------------------------------------------------

/-- Accepted tokens are minus signs and digits. -/
theorem isAscii_of_accepts {token : Text} (accepted : acceptsLatlonToken token = true)
    : IsAscii token := by
  intro c member
  rw [← @List.takeWhile_append_dropWhile _ (fun c => decide (c = '-')) token] at member
  rcases List.mem_append.mp member with sign | digit
  · have same := List.all_eq_true.mp List.all_takeWhile c sign
    rw [of_decide_eq_true same]
    rfl
  · exact utf8Size_of_isDigit (List.all_eq_true.mp accepted c digit)

/-- The words that are put together pass the test, by induction on the words. -/
theorem accepts_of_consumeWords {accepts : Text → Bool} {token first word : Text}
    {rest : List Text} {taken : Nat}
    (found : consumeWords accepts token first rest = some (word, taken))
    : accepts word = true ∧ 4 ≤ utf8Len word ∧ utf8Len word ≤ 8 := by
  induction rest generalizing token first taken with
  | nil =>
      rw [consumeWords] at found
      split at found
      · next fits =>
          obtain ⟨rfl, -⟩ := Prod.mk.inj (Option.some.inj found)
          exact ⟨fits.2.2, fits.1, fits.2.1⟩
      · cases found
  | cons next rest ih =>
      rw [consumeWords] at found
      dsimp only at found
      split at found
      · next fits =>
          split at found
          · next accepted =>
              obtain ⟨rfl, -⟩ := Prod.mk.inj (Option.some.inj found)
              exact ⟨accepted, fits⟩
          · cases found
      · split at found
        · cases found
        · obtain ⟨⟨later, more⟩, inner, same⟩ := Option.map_eq_some_iff.mp found
          obtain ⟨rfl, -⟩ := Prod.mk.inj same
          exact ih inner

theorem returns_sliceMeasure {text : Text} (ascii : IsAscii text) {start stop : Nat}
    (order : start ≤ stop) (fits : stop ≤ text.length)
    : Returns (sliceMeasure F start stop text) := by
  rw [sliceMeasure, ascii.slice_eq order fits]
  exact returns_pure _

theorem returns_packedDegrees {coord : Text} (ascii : IsAscii coord)
    : Returns (packedDegrees (F := F) coord) := by
  have length := ascii.utf8Len_eq
  unfold packedDegrees
  split
  · exact returns_pure _
  · exact returns_pure _
  · next six =>
      refine (returns_sliceMeasure ascii (by omega) (by omega)).bind fun degrees _ => ?_
      cases degrees with
      | none => exact returns_pure _
      | some degrees =>
          refine (returns_sliceMeasure ascii (by omega) (by omega)).bind fun minutes _ => ?_
          cases minutes with
          | none => exact returns_pure _
          | some minutes =>
              exact (returns_sliceMeasure ascii (by omega) (by omega)).bind
                fun _ _ => returns_pure _
  · next seven =>
      refine (returns_sliceMeasure ascii (by omega) (by omega)).bind fun degrees _ => ?_
      cases degrees with
      | none => exact returns_pure _
      | some degrees =>
          exact (returns_sliceMeasure ascii (by omega) (by omega)).bind fun _ _ => returns_pure _
  · next eight =>
      refine (returns_sliceMeasure ascii (by omega) (by omega)).bind fun degrees _ => ?_
      cases degrees with
      | none => exact returns_pure _
      | some degrees =>
          refine (returns_sliceMeasure ascii (by omega) (by omega)).bind fun minutes _ => ?_
          cases minutes with
          | none => exact returns_pure _
          | some minutes =>
              refine (returns_sliceMeasure ascii (by omega) (by omega)).bind fun seconds _ => ?_
              cases seconds with
              | none => exact returns_pure _
              | some seconds =>
                  exact (returns_sliceMeasure ascii (by omega) (by omega)).bind
                    fun _ _ => returns_pure _
  · exact returns_pure _

theorem returns_latlonParseCoordinate {coord : Text} (ascii : IsAscii coord) (isLatitude : Bool)
    : Returns (latlonParseCoordinate (F := F) coord isLatitude) := by
  have trimmed : IsAscii (trim coord) := fun c member => ascii c (mem_of_mem_trim member)
  unfold latlonParseCoordinate
  dsimp only
  split
  · exact returns_pure _
  · refine (returns_packedDegrees trimmed).bind fun value _ => ?_
    cases value with
    | none => exact returns_pure _
    | some value =>
        dsimp only
        split <;> exact returns_pure _

theorem returns_readsLatlon {coord : Text} (ascii : IsAscii coord) (isLatitude : Bool)
    : Returns (readsLatlon (F := F) coord isLatitude) :=
  map_returns_iff.mpr (returns_latlonParseCoordinate ascii isLatitude)

-----------------------------------------------------------------------------------------
-- Repairs
-----------------------------------------------------------------------------------------

/-- The halves of a token of eight bytes. -/
theorem halves_of_eight {token : Text} (ascii : IsAscii token) (eight : utf8Len token = 8)
    : sliceTo 4 token = .ok (token.take 4) ∧ sliceFrom 4 token = .ok (token.drop 4)
      ∧ IsAscii (token.take 4) ∧ IsAscii (token.drop 4) := by
  have length := ascii.utf8Len_eq
  exact ⟨ascii.sliceTo_eq (by omega), ascii.sliceFrom_eq (by omega),
    ascii.of_subset (List.take_subset 4 token), ascii.of_subset (List.drop_subset 4 token)⟩

/-- A split comes back, and its parts are of ASCII. -/
def SplitsAscii (split : Except Panic (Option (Text × Text))) : Prop :=
  ∃ parts, split = .ok parts ∧ ∀ pair ∈ parts, IsAscii pair.1 ∧ IsAscii pair.2

theorem splitsAscii_none : SplitsAscii (pure none) := ⟨none, rfl, nofun⟩

theorem splitsAscii_packed (normalized : List Text) {token : Text} (ascii : IsAscii token)
    : SplitsAscii (latlonSplitPackedCoordinatePair (F := F) normalized token) := by
  unfold latlonSplitPackedCoordinatePair
  split
  · exact splitsAscii_none
  · next guard =>
      obtain ⟨lat, lon, latAscii, lonAscii⟩ := halves_of_eight ascii (by omega)
      obtain ⟨readsLat, first⟩ := returns_readsLatlon (F := F) latAscii true
      obtain ⟨readsLon, second⟩ := returns_readsLatlon (F := F) lonAscii false
      rw [lat, lon]
      simp only [ok_bind, first, second]
      cases readsLat with
      | false => exact splitsAscii_none
      | true =>
          cases readsLon with
          | false => exact splitsAscii_none
          | true =>
              refine ⟨_, rfl, ?_⟩
              intro pair same
              obtain rfl := Option.some.inj same
              exact ⟨latAscii, lonAscii⟩

theorem splitsAscii_fused {normalized : List Text} {token : Text} (ascii : IsAscii token)
    (before : ∀ coord ∈ normalized, IsAscii coord)
    : SplitsAscii (splitFusedCoordinateToken (F := F) normalized token) := by
  unfold splitFusedCoordinateToken
  split
  · exact splitsAscii_none
  · next guard =>
      split
      · exact splitsAscii_none
      · obtain ⟨lon, lat, lonAscii, latAscii⟩ := halves_of_eight ascii (by omega)
        obtain ⟨readsLon, second⟩ := returns_readsLatlon (F := F) lonAscii false
        obtain ⟨readsLat, third⟩ := returns_readsLatlon (F := F) latAscii true
        rw [lon, lat]
        simp only [ok_bind]
        split
        · exact splitsAscii_none
        · next pending last =>
            obtain ⟨readsPending, first⟩ :=
              returns_readsLatlon (F := F) (before pending (List.mem_of_getLast? last)) true
            simp only [ok_bind, first, second, third]
            cases readsPending with
            | false => exact splitsAscii_none
            | true =>
                cases readsLon with
                | false => exact splitsAscii_none
                | true =>
                    cases readsLat with
                    | false => exact splitsAscii_none
                    | true =>
                        refine ⟨_, rfl, ?_⟩
                        intro pair same
                        obtain rfl := Option.some.inj same
                        exact ⟨lonAscii, latAscii⟩

theorem forall_mem_append_pair {normalized : List Text} {first second : Text}
    (before : ∀ coord ∈ normalized, IsAscii coord) (one : IsAscii first) (two : IsAscii second)
    : ∀ coord ∈ normalized ++ [first, second], IsAscii coord := by
  intro coord member
  simp only [List.mem_append, List.mem_cons, List.not_mem_nil, or_false] at member
  rcases member with old | rfl | rfl
  · exact before coord old
  · exact one
  · exact two

/-- Repairing comes back with tokens of ASCII, by induction on the tokens that are left. -/
theorem normalizeLatlonFrom_ascii (normalized : List Text) (taken : Nat) (tokens : List Text)
    (before : ∀ coord ∈ normalized, IsAscii coord)
    : ∃ result,
        normalizeLatlonFrom (F := F) normalized taken tokens = .ok result
        ∧ ∀ found ∈ result, ∀ coord ∈ found.1, IsAscii coord := by
  induction tokens generalizing normalized taken with
  | nil =>
      refine ⟨some (normalized, []), by cases taken <;> rfl, ?_⟩
      intro found same
      obtain rfl := Option.some.inj same
      exact before
  | cons first rest ih =>
      cases taken with
      | succ taken => exact ih normalized taken before
      | zero =>
          rw [normalizeLatlonFrom]
          split
          · refine ⟨_, rfl, ?_⟩
            intro found same
            obtain rfl := Option.some.inj same
            exact before
          · split
            · exact ⟨none, rfl, nofun⟩
            · next token taken consumed =>
                have ascii := isAscii_of_accepts (accepts_of_consumeWords consumed).1
                obtain ⟨packed, split, parts⟩ := splitsAscii_packed (F := F) normalized ascii
                rw [split]
                cases packed with
                | some pair =>
                    have both := parts pair rfl
                    exact ih _ taken (forall_mem_append_pair before both.1 both.2)
                | none =>
                    obtain ⟨fused, split, parts⟩ := splitsAscii_fused (F := F) ascii before
                    simp only [ok_bind, split]
                    cases fused with
                    | some pair =>
                        have both := parts pair rfl
                        obtain ⟨result, later, all⟩ :=
                          ih _ taken (forall_mem_append_pair before both.1 both.2)
                        dsimp only
                        rw [later]
                        refine ⟨_, rfl, ?_⟩
                        intro found same
                        obtain ⟨inner, member, rfl⟩ := Option.map_eq_some_iff.mp same
                        exact all inner member
                    | none =>
                        refine ih _ taken fun coord member => ?_
                        rcases List.mem_append.mp member with old | new
                        · exact before coord old
                        · obtain rfl := List.mem_singleton.mp new
                          exact ascii

/-- The points of tokens of ASCII, by induction on the tokens. -/
theorem returns_parsePointsFrom (raw : Text) (points : List (F × F)) (pending : Option F)
    {coords : List Text} (ascii : ∀ coord ∈ coords, IsAscii coord)
    : Returns (parsePointsFrom raw points pending coords) := by
  induction coords generalizing points pending with
  | nil => exact returns_pure _
  | cons coord rest ih =>
      have here := ascii coord (by simp)
      have later points pending :=
        ih points pending fun other member => ascii other (by simp [member])
      rw [parsePointsFrom]
      split
      · next packed =>
          obtain ⟨lat, lon, latAscii, lonAscii⟩ := halves_of_eight here packed.1
          split
          · exact returns_pure _
          · rw [lat, lon]
            simp only [ok_bind]
            refine (returns_latlonParseCoordinate latAscii true).bind fun value _ => ?_
            cases value with
            | none => exact returns_pure _
            | some value =>
                refine (returns_latlonParseCoordinate lonAscii false).bind fun other _ => ?_
                cases other with
                | none => exact returns_pure _
                | some other => exact later _ _
      · refine (returns_latlonParseCoordinate here _).bind fun value _ => ?_
        cases value with
        | none => exact returns_pure _
        | some value =>
            cases pending with
            | none => exact later _ _
            | some lat => exact later _ _

theorem returns_parseLatlonCandidate (candidate : LatLonCandidate)
    : Returns (parseLatlonCandidate (F := F) candidate) := by
  unfold parseLatlonCandidate
  dsimp only
  split
  · exact returns_pure _
  · next marker rawCoords _ =>
      split
      · exact returns_pure _
      · obtain ⟨result, normalized, ascii⟩ :=
          normalizeLatlonFrom_ascii (F := F) [] 0 rawCoords nofun
        rw [normalizeLatlonTokens, normalized]
        cases result with
        | none => exact returns_pure _
        | some found =>
            refine (returns_parsePointsFrom _ _ _ (ascii found rfl)).bind fun points _ => ?_
            cases points with
            | error issue => exact returns_pure _
            | ok points =>
                dsimp only
                split <;> exact returns_pure _

/-- Polygons are read from every text. -/
theorem returns_parseLatlonPolygonsWithIssues (text : Text)
    : Returns (parseLatlonPolygonsWithIssues (F := F) text) := by
  refine (returns_latlonCandidatesFrom 0 _).bind fun candidates _ => ?_
  have all : Returns (candidates.mapM (parseLatlonCandidate (F := F))) :=
    returns_mapM_iff.mpr fun candidate _ => returns_parseLatlonCandidate candidate
  exact all.bind fun _ _ => returns_pure _

end Emwin.Parser
