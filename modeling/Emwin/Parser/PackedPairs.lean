import Emwin.Library.Words
import Emwin.Parser.Exact
import Emwin.Parser.Instants
import Emwin.Parser.LatLonSafety
import Emwin.Parser.SpcOutlook
import Emwin.Parser.TimeMotLocSafety

/-! A latitude and a longitude packed in one token, as warning polygons, storm motion lines and
outlook areas read it.
-/

namespace Emwin.Parser
open Library

/-- `LLLLOOOO`, and not the mark between outlook polygons. -/
structure IsPackedPair (token : Text) : Prop where
  length : token.length = 8
  digits : token.all Char.isDigit = true
  noSeparator : token ≠ polygonSeparator

instance (token : Text) : Decidable (IsPackedPair token) :=
  decidable_of_iff (token.length = 8 ∧ token.all Char.isDigit = true ∧ token ≠ polygonSeparator)
    ⟨fun ⟨length, digits, noSeparator⟩ => ⟨length, digits, noSeparator⟩,
      fun ⟨length, digits, noSeparator⟩ => ⟨length, digits, noSeparator⟩⟩

/-- The point of a token in hundredths of degrees, without the shift of western longitudes. -/
def plainPoint (token : Text) : ℚ × ℚ :=
  ((digitsNat (token.take 4) : ℚ) / 100, -((digitsNat (token.drop 4) : ℚ) / 100))

/-- The point of a token with a longitude below 40 degrees read as one of 100 degrees more. -/
def shiftedPoint (token : Text) : ℚ × ℚ :=
  let longitude : ℚ := (digitsNat (token.drop 4) : ℚ) / 100
  ((digitsNat (token.take 4) : ℚ) / 100, -(if longitude < 40 then longitude + 100 else longitude))

/-- The two readings are the same from 40 degrees on. -/
theorem shiftedPoint_eq_plainPoint_iff (token : Text)
    : shiftedPoint token = plainPoint token ↔ 4000 ≤ digitsNat (token.drop 4) := by
  have bound : (digitsNat (token.drop 4) : ℚ) / 100 < 40 ↔ digitsNat (token.drop 4) < 4000 := by
    rw [div_lt_iff₀ (by norm_num)]
    norm_num
  rw [shiftedPoint, plainPoint, Prod.mk.injEq, neg_inj]
  split
  · next small =>
      have : digitsNat (token.drop 4) < 4000 := bound.mp small
      constructor
      · rintro ⟨-, same⟩
        norm_num at same
      · omega
  · next large =>
      have : ¬ digitsNat (token.drop 4) < 4000 := fun small => large (bound.mpr small)
      exact ⟨fun _ => by omega, fun _ => ⟨rfl, rfl⟩⟩

-----------------------------------------------------------------------------------------
-- Tokens
-----------------------------------------------------------------------------------------

theorem not_minus_of_digits {text : Text} (digits : text.all Char.isDigit = true)
    : text.head? ≠ some '-' := by
  intro minus
  have digit := List.all_eq_true.mp digits '-' (List.mem_of_head? minus)
  exact absurd digit (by decide)

/-- A half of a packed token. -/
structure IsHalf (half : Text) : Prop where
  length : half.length = 4
  digits : half.all Char.isDigit = true

namespace IsPackedPair

variable {token : Text} (packed : IsPackedPair token)
include packed

theorem isWord : IsWord token := by
  refine isWord_of_digits ?_ packed.digits
  rintro rfl
  exact absurd packed.length (by decide)

theorem utf8Len_eq : utf8Len token = 8 :=
  (isAscii_of_digits packed.digits).utf8Len_eq.trans packed.length

theorem take : IsHalf (token.take 4) where
  length := by simp [packed.length]
  digits := List.all_eq_true.mpr fun c member =>
    List.all_eq_true.mp packed.digits c (List.mem_of_mem_take member)

theorem drop : IsHalf (token.drop 4) where
  length := by simp [packed.length]
  digits := List.all_eq_true.mpr fun c member =>
    List.all_eq_true.mp packed.digits c (List.mem_of_mem_drop member)

theorem accepted : acceptsLatlonToken token = true := by
  obtain ⟨c, rest, rfl⟩ := List.exists_cons_of_ne_nil packed.isWord.nonempty
  have other : c ≠ '-' := by simpa using not_minus_of_digits packed.digits
  rw [acceptsLatlonToken, List.dropWhile_cons_of_neg (by simpa using other)]
  exact packed.digits

/-- The token is taken alone. -/
theorem consumeWords_eq {accepts : Text → Bool} (passes : accepts token = true)
    (rest : List Text)
    : consumeWords accepts [] token rest = some (token, 0) := by
  have length := packed.utf8Len_eq
  cases rest with
  | nil => simp [consumeWords, packed.isWord.trim_eq, length, passes]
  | cons next rest => simp [consumeWords, packed.isWord.trim_eq, length, passes]

end IsPackedPair

namespace IsHalf

variable {half : Text} (isHalf : IsHalf half)
include isHalf

theorem nonempty : half ≠ [] := by
  rintro rfl
  exact absurd isHalf.length (by decide)

theorem trim_eq : trim half = half := (isWord_of_digits isHalf.nonempty isHalf.digits).trim_eq

theorem utf8Len_eq : utf8Len half = 4 :=
  (isAscii_of_digits isHalf.digits).utf8Len_eq.trans isHalf.length

/-- A half of a warning polygon's token. -/
theorem latlonParseCoordinate_eq (isLatitude : Bool)
    : latlonParseCoordinate (F := ℚ) half isLatitude
      = .ok (some (if isLatitude then (digitsNat half : ℚ) / 100
          else -(if (digitsNat half : ℚ) / 100 < 40 then (digitsNat half : ℚ) / 100 + 100
            else (digitsNat half : ℚ) / 100))) := by
  have read : packedDegrees (F := ℚ) half = .ok (some ((digitsNat half : ℚ) / 100)) := by
    rw [packedDegrees, isHalf.utf8Len_eq]
    show Except.ok ((parseDecimal half).map fun hundredths : ℚ => hundredths / 100) = _
    rw [parseDecimal_digits isHalf.nonempty isHalf.digits]
    rfl
  rw [latlonParseCoordinate, isHalf.trim_eq, if_neg (not_minus_of_digits isHalf.digits), read]
  cases isLatitude with
  | true => rfl
  | false =>
      show Except.ok (some (-(if decide ((digitsNat half : ℚ) / 100 < 40) = true
        then (digitsNat half : ℚ) / 100 + 100 else (digitsNat half : ℚ) / 100))) = _
      simp only [decide_eq_true_eq, Bool.false_eq_true, if_false]

/-- The digits of two coordinates of two digits. -/
theorem digitsNat_eq
    : digitsNat half = digitsNat (half.take 2) * 100 + digitsNat (half.drop 2) := by
  have split := digitsNat_append (half.take 2) (half.drop 2)
  rw [List.take_append_drop, List.length_drop, isHalf.length] at split
  exact split

/-- A half of a storm motion line's token. -/
theorem tmlParseCoordinate_eq (isLat : Bool)
    : tmlParseCoordinate (F := ℚ) half isLat
      = .ok (some (if isLat then (digitsNat half : ℚ) / 100
          else -((digitsNat half : ℚ) / 100))) := by
  have ascii := isAscii_of_digits isHalf.digits
  have unsigned : half.dropWhile (fun c => decide (c = '-')) = half := by
    obtain ⟨c, rest, rfl⟩ := List.exists_cons_of_ne_nil isHalf.nonempty
    have other : c ≠ '-' := by simpa using not_minus_of_digits isHalf.digits
    exact List.dropWhile_cons_of_neg (by simpa using other)
  have part (start stop : Nat) (order : start < stop) (fits : stop ≤ 4)
      : sliceMeasure ℚ start stop half
        = .ok (some (digitsNat ((half.take stop).drop start) : ℚ)) := by
    have length := isHalf.length
    rw [sliceMeasure, ascii.slice_eq order.le (by omega), ok_bind]
    refine congrArg Except.ok (parseDecimal_digits ?_ ?_)
    · rw [← List.length_pos_iff]
      simp
      omega
    · refine List.all_eq_true.mpr fun c member => ?_
      exact List.all_eq_true.mp isHalf.digits c
        (List.mem_of_mem_take (List.mem_of_mem_drop member))
  have whole : half.take 4 = half := List.take_of_length_le (by rw [isHalf.length])
  have value : tmlDegrees (F := ℚ) half isLat = .ok (some ((digitsNat half : ℚ) / 100)) := by
    rw [tmlDegrees, isHalf.utf8Len_eq, part 0 2 (by omega) (by omega), ok_bind]
    dsimp only
    rw [part 2 4 (by omega) (by omega), ok_bind, whole, List.drop_zero, isHalf.digitsNat_eq]
    show Except.ok (some ((digitsNat (half.take 2) : ℚ) + (digitsNat (half.drop 2) : ℚ) / 100)) = _
    push_cast
    congr 2
    ring
  rw [tmlParseCoordinate, isHalf.trim_eq, unsigned, value]
  cases isLat <;> rfl

end IsHalf

-----------------------------------------------------------------------------------------
-- Warning polygons
-----------------------------------------------------------------------------------------

section Tokens

variable {tokens : List Text} (packed : ∀ token ∈ tokens, IsPackedPair token)
include packed

/-- The coordinates of the tokens. -/
theorem normalizeLatlonFrom_packed {normalized : List Text} (even : normalized.length % 2 = 0)
    : normalizeLatlonFrom (F := ℚ) normalized 0 tokens
      = .ok (some
          (normalized ++ tokens.flatMap fun token => [token.take 4, token.drop 4], [])) := by
  induction tokens generalizing normalized with
  | nil =>
      rw [List.flatMap_nil, List.append_nil]
      rfl
  | cons token rest ih =>
      have here := packed token (by simp)
      have goesOn : isLatlonTerminator token = false := by
        have other {text : Text} (short : text.length = 2) : trim token ≠ text := by
          rintro rfl
          rw [here.isWord.trim_eq, here.length] at short
          cases short
        rw [isLatlonTerminator, decide_eq_false (other (by decide)),
          decide_eq_false (other (by decide))]
        rfl
      have ascii := isAscii_of_digits here.digits
      obtain ⟨front, back, -, -⟩ := halves_of_eight ascii here.utf8Len_eq
      have split : latlonSplitPackedCoordinatePair (F := ℚ) normalized token
          = .ok (some (token.take 4, token.drop 4)) := by
        rw [latlonSplitPackedCoordinatePair, if_neg, front, back]
        · simp only [ok_bind, readsLatlon, here.take.latlonParseCoordinate_eq,
            here.drop.latlonParseCoordinate_eq]
          rfl
        · simp [not_minus_of_digits here.digits, here.utf8Len_eq, even]
      rw [normalizeLatlonFrom, goesOn, here.consumeWords_eq here.accepted]
      simp only [Bool.false_eq_true, if_false, split, ok_bind]
      rw [ih (fun other member => packed other (by simp [member])) (by simp; omega)]
      simp

/-- The points of the coordinates, by induction on the tokens. -/
theorem parsePointsFrom_packed (raw : Text) (points : List (ℚ × ℚ))
    (enough : 3 ≤ points.length + tokens.length)
    : parsePointsFrom (F := ℚ) raw points none
        (tokens.flatMap fun token => [token.take 4, token.drop 4])
      = .ok (.ok (points ++ tokens.map shiftedPoint)) := by
  induction tokens generalizing points with
  | nil =>
      have many : ¬ points.length < 3 := by simpa using enough
      simp only [List.flatMap_nil, parsePointsFrom, List.map_nil, List.append_nil, many,
        Option.isSome_none, decide_false, Bool.or_self, Bool.false_eq_true, if_false]
      rfl
  | cons token rest ih =>
      have here := packed token (by simp)
      have later := ih (fun other member => packed other (by simp [member]))
        (points ++ [shiftedPoint token]) (by simp at enough ⊢; omega)
      simp only [List.flatMap_cons, List.cons_append, List.nil_append]
      rw [parsePointsFrom, if_neg (by simp [here.take.utf8Len_eq]),
        here.take.latlonParseCoordinate_eq]
      simp only [ok_bind, Option.isNone_none, if_true]
      rw [parsePointsFrom, if_neg (by simp [here.drop.utf8Len_eq]), Option.isNone_some,
        here.drop.latlonParseCoordinate_eq]
      simp only [ok_bind, Bool.false_eq_true, if_false]
      rw [List.map_cons, List.append_cons points (shiftedPoint token)]
      exact later

theorem areWords_latlon : ∀ word ∈ latlonMarker :: tokens, IsWord word := by
  intro word member
  rcases List.mem_cons.mp member with rfl | inside
  · exact ⟨by decide, by decide⟩
  · exact (packed word inside).isWord

/-- A block of such tokens is one candidate. -/
theorem findLatlonCandidates_packed
    : findLatlonCandidates (joinWords (latlonMarker :: tokens))
      = .ok [⟨joinWords (latlonMarker :: tokens), joinWords (latlonMarker :: tokens)⟩] := by
  have areWords := areWords_latlon packed
  have found := asciiFind_prefix (prefix_joinWords latlonMarker tokens)
  rw [findLatlonCandidates, lines_joinWords areWords (by simp), latlonCandidatesFrom, found]
  simp only [collectLatlonCandidate, sliceFrom_zero, ok_bind, trim_joinWords areWords]
  rfl

/-- The ring of a block of such tokens, where it is not rejected. -/
theorem parseLatlonPolygons_packed (enough : 3 ≤ tokens.length)
    : parseLatlonPolygonsWithIssues (F := ℚ) (joinWords (latlonMarker :: tokens))
      = .ok (match validatePolygon (tokens.map shiftedPoint) (joinWords (latlonMarker :: tokens))
          with
        | .error issue => ([], [issue])
        | .ok ring => ([⟨ring, formatPolygonWkt ring⟩], [])) := by
  have areWords := areWords_latlon packed
  have normalized := @normalizeLatlonFrom_packed tokens packed [] rfl
  have points := parsePointsFrom_packed packed (joinWords (latlonMarker :: tokens)) []
    (by simpa using enough)
  rw [List.nil_append] at normalized points
  rw [parseLatlonPolygonsWithIssues, findLatlonCandidates_packed packed, ok_bind,
    List.mapM_cons, List.mapM_nil, parseLatlonCandidate, trim_joinWords areWords,
    splitWhitespace_joinWords areWords]
  have marked : eqIgnoreAsciiCase latlonMarker latlonMarker = true := by decide
  simp only [marked, Bool.not_true, Bool.false_eq_true, if_false, normalizeLatlonTokens,
    normalized, ok_bind, parsePoints, points]
  cases validatePolygon (tokens.map shiftedPoint) (joinWords (latlonMarker :: tokens)) with
  | error issue => rfl
  | ok ring => rfl

-----------------------------------------------------------------------------------------
-- Outlook areas
-----------------------------------------------------------------------------------------

theorem tokenPoints_packed : tokenPoints (F := ℚ) tokens = .ok (some (tokens.map plainPoint)) := by
  induction tokens with
  | nil => rfl
  | cons token rest ih =>
      have here := packed token (by simp)
      obtain ⟨front, back, -, -⟩ :=
        halves_of_eight (isAscii_of_digits here.digits) here.utf8Len_eq
      have lat : (Measure.parse (token.take 4) : Option ℚ) = some (digitsNat (token.take 4) : ℚ) :=
        parseDecimal_digits here.take.nonempty here.take.digits
      have lon : (Measure.parse (token.drop 4) : Option ℚ) = some (digitsNat (token.drop 4) : ℚ) :=
        parseDecimal_digits here.drop.nonempty here.drop.digits
      have later := ih fun other member => packed other (by simp [member])
      rw [tokenPoints, front, back]
      simp only [ok_bind, lat, lon, later]
      rfl

/-- The words of one area are its tokens, by induction on them. -/
theorem parsePolygonTokensFrom_packed (current : List Text)
    : parsePolygonTokensFrom (F := ℚ) current tokens
      = Option.toList <$> buildPolygon (F := ℚ) (current ++ tokens) := by
  induction tokens generalizing current with
  | nil => rw [parsePolygonTokensFrom, List.append_nil]
  | cons token rest ih =>
      have here := packed token (by simp)
      rw [parsePolygonTokensFrom, if_neg here.noSeparator, if_pos ⟨here.utf8Len_eq, here.digits⟩,
        ih (fun other member => packed other (by simp [member])), List.append_assoc,
        List.singleton_append]

theorem parsePolygonTokens_packed (enough : 3 ≤ tokens.length)
    : parsePolygonTokens (F := ℚ) (joinWords tokens)
      = .ok [⟨closeRing (tokens.map plainPoint),
          formatPolygonWkt (closeRing (tokens.map plainPoint))⟩] := by
  rw [parsePolygonTokens, splitWhitespace_joinWords fun word member => (packed word member).isWord,
    parsePolygonTokensFrom_packed packed, List.nil_append, buildPolygon, if_neg (by omega),
    tokenPoints_packed packed]
  rfl

-----------------------------------------------------------------------------------------
-- Storm motion
-----------------------------------------------------------------------------------------

/-- The coordinates of the tokens, by induction on them. -/
theorem normalizeTmlFrom_packed {normalized : List Text} (even : normalized.length % 2 = 0)
    : normalizeTmlFrom (F := ℚ) normalized 0 tokens
      = .ok (some (normalized ++ tokens.flatMap fun token => [token.take 4, token.drop 4])) := by
  induction tokens generalizing normalized with
  | nil =>
      rw [List.flatMap_nil, List.append_nil]
      rfl
  | cons token rest ih =>
      have here := packed token (by simp)
      obtain ⟨front, back, -, -⟩ :=
        halves_of_eight (isAscii_of_digits here.digits) here.utf8Len_eq
      have split : tmlSplitPackedCoordinatePair (F := ℚ) normalized token
          = .ok (some (token.take 4, token.drop 4)) := by
        rw [tmlSplitPackedCoordinatePair, if_neg (by simp [here.utf8Len_eq, even]), front, back]
        simp only [ok_bind, readsTml, here.take.tmlParseCoordinate_eq,
          here.drop.tmlParseCoordinate_eq]
        rfl
      rw [normalizeTmlFrom, here.consumeWords_eq rfl]
      simp only [split, ok_bind]
      rw [ih (fun other member => packed other (by simp [member])) (by simp; omega)]
      simp

/-- The points of the coordinates, by induction on the tokens. -/
theorem tmlPoints_packed (raw : Text)
    : tmlPoints (F := ℚ) raw (tokens.flatMap fun token => [token.take 4, token.drop 4])
      = .ok (.ok (tokens.map plainPoint)) := by
  induction tokens with
  | nil => rfl
  | cons token rest ih =>
      have here := packed token (by simp)
      simp only [List.flatMap_cons, List.cons_append, List.nil_append]
      rw [tmlPoints, here.take.tmlParseCoordinate_eq, ok_bind]
      simp only [if_true]
      rw [here.drop.tmlParseCoordinate_eq, ok_bind]
      simp only [Bool.false_eq_true, if_false]
      rw [ih fun other member => packed other (by simp [member])]
      rfl

theorem tmlEntry_packed (raw : Text) (timeUtc : UtcTime) (direction speed : Nat)
    (some : tokens ≠ [])
    : tmlEntry (F := ℚ) raw timeUtc direction speed tokens
      = .ok (.ok (⟨timeUtc, .ofNat direction, .ofNat speed, tokens.map plainPoint,
          formatLinestringWkt (tokens.map plainPoint)⟩, [])) := by
  have normalized := @normalizeTmlFrom_packed tokens packed [] rfl
  rw [List.nil_append] at normalized
  have length : (tokens.flatMap fun token => [token.take 4, token.drop 4]).length
      = 2 * tokens.length := by
    rw [List.length_flatMap]
    simp [Nat.mul_comm]
  have positive := List.length_pos_iff.mpr some
  rw [tmlEntry, normalized, ok_bind]
  simp only [length, show ¬ 2 * tokens.length % 2 ≠ 0 by omega, if_false,
    show ¬ 2 * tokens.length < 2 by omega, tmlPoints_packed packed, ok_bind]
  rfl

end Tokens

/-- A storm motion line up to its coordinates: a time, a direction and a speed that are read. -/
structure MotionLead (calendar : Calendar) (referenceTime : UtcTime) where
  time : Text
  direction : List Text
  speed : List Text
  timeUtc : UtcTime
  degrees : Nat
  knots : Nat
  areWords : ∀ word ∈ time :: direction ++ speed, IsWord word
  readsTime : parseTimeToken calendar time referenceTime = .ok (some timeUtc)
  readsDirection : ∀ rest, parseDegreesToken (direction ++ rest) = (some degrees, rest)
  readsSpeed : ∀ rest, parseSpeedToken (speed ++ rest) = (some knots, rest)

namespace MotionLead

variable {calendar : Calendar} {referenceTime : UtcTime}
  (lead : MotionLead calendar referenceTime)

/-- The words of a line with these coordinates. -/
def line (tokens : List Text) : List Text :=
  timeMotLocMarker :: lead.time :: (lead.direction ++ (lead.speed ++ tokens))

theorem areWords_line {tokens : List Text} (packed : ∀ token ∈ tokens, IsPackedPair token)
    : ∀ word ∈ lead.line tokens, IsWord word := by
  intro word member
  simp only [line, List.mem_cons, List.mem_append] at member
  rcases member with rfl | rfl | inside | inside | inside
  · exact ⟨by decide, by decide⟩
  · exact lead.areWords _ (by simp)
  · exact lead.areWords _ (by simp [inside])
  · exact lead.areWords _ (by simp [inside])
  · exact (packed word inside).isWord

theorem parseTimeShape_eq : parseTimeShape lead.time = .ok true := by
  have read := lead.readsTime
  rw [parseTimeToken] at read
  obtain ⟨shaped, here, later⟩ := exceptBind_ok_iff.mp read
  cases shaped with
  | true => exact here
  | false => cases later

/-- The line is one candidate. -/
theorem findTimeMotLocCandidates_line {tokens : List Text}
    (packed : ∀ token ∈ tokens, IsPackedPair token)
    : findTimeMotLocCandidates (joinWords (lead.line tokens))
      = .ok [⟨joinWords (lead.line tokens), joinWords (lead.line tokens), false⟩] := by
  have areWords := lead.areWords_line packed
  have found := asciiFind_prefix
    (prefix_joinWords timeMotLocMarker (lead.time :: (lead.direction ++ (lead.speed ++ tokens))))
  have parseable : candidateHasParseablePrefix (joinWords (lead.line tokens)) = .ok true := by
    rw [candidateHasParseablePrefix, splitWhitespace_joinWords areWords]
    simp only [line, lead.readsDirection, lead.readsSpeed, lead.parseTimeShape_eq]
    rfl
  rw [findTimeMotLocCandidates, lines_joinWords areWords (by simp [line]), tmlCandidatesFrom,
    show asciiFindCaseInsensitive (joinWords (lead.line tokens)) timeMotLocMarker = some 0
      from found]
  simp only [collectTimeMotLocCandidate, sliceFrom_zero, ok_bind, trim_joinWords areWords,
    joinTmlLines]
  simp [tmlCandidatesFrom, parseable]

/-- The entry of the line. -/
theorem parseTimeMotLocEntries_line {tokens : List Text}
    (packed : ∀ token ∈ tokens, IsPackedPair token) (some : tokens ≠ [])
    : ∃ entry issues,
        parseTimeMotLocEntriesWithIssues (F := ℚ) calendar (joinWords (lead.line tokens))
          referenceTime
        = .ok ([entry], issues)
        ∧ entry.points = tokens.map plainPoint := by
  have areWords := lead.areWords_line packed
  obtain ⟨count, counted⟩ := returns_countMarkers (joinWords (lead.line tokens))
  have marked : eqIgnoreAsciiCase timeMotLocMarker timeMotLocMarker = true := by decide
  rw [parseTimeMotLocEntriesWithIssues, counted, ok_bind,
    lead.findTimeMotLocCandidates_line packed, ok_bind, List.mapM_cons, List.mapM_nil,
    parseTimeMotLocCandidate, trim_joinWords areWords, splitWhitespace_joinWords areWords]
  simp only [line, marked, Bool.not_true, Bool.false_eq_true, if_false, lead.readsTime, ok_bind,
    lead.readsDirection, lead.readsSpeed, tmlEntry_packed packed _ _ _ _ some]
  exact ⟨_, _, rfl, rfl⟩

end MotionLead

-----------------------------------------------------------------------------------------
-- Agreement
-----------------------------------------------------------------------------------------

/-- One list of points comes out of the three parsers, with the rings closed. -/
def DecodedAlike (polygons : List (LatLonPolygon ℚ)) (entries : List (TimeMotLocEntry ℚ))
    (outlooks : List (LatLonPolygon ℚ)) : Prop :=
  ∃ points,
    entries.map (·.points) = [points]
    ∧ polygons.map (·.points) = [closeRing points]
    ∧ outlooks.map (·.points) = [closeRing points]

/-- A closed ring starts with the points. -/
theorem take_closeRing (points : List (ℚ × ℚ))
    : (closeRing points).take points.length = points := by
  cases points with
  | nil => rfl
  | cons first rest =>
      rw [closeRing]
      split
      · simp
      · exact List.take_left

/-- Two readings of the same tokens with the same closed ring. -/
theorem map_eq_of_closeRing {tokens : List Text} {left right : Text → ℚ × ℚ}
    (same : closeRing (tokens.map left) = closeRing (tokens.map right))
    : tokens.map left = tokens.map right := by
  have front := take_closeRing (tokens.map left)
  have back := take_closeRing (tokens.map right)
  rw [List.length_map] at front back
  rw [← front, ← back, same]

theorem length_closeRing_le (points : List (ℚ × ℚ))
    : (closeRing points).length ≤ points.length + 1 := by
  cases points with
  | nil => exact Nat.zero_le _
  | cons first rest =>
      rw [closeRing]
      split <;> simp

/-- A block that is not rejected for its ring gives the closed ring. -/
theorem polygons_of_accepted {tokens : List Text} (packed : ∀ token ∈ tokens, IsPackedPair token)
    (enough : 3 ≤ tokens.length) {polygons : List (LatLonPolygon ℚ)}
    {issues : List ProductParseIssue}
    (read : parseLatlonPolygonsWithIssues (joinWords (latlonMarker :: tokens))
      = .ok (polygons, issues))
    (accepted : ∀ issue ∈ issues, issue.code ≠ "latlon_geometry_invalid".toList)
    : polygons.map (·.points) = [closeRing (tokens.map shiftedPoint)] := by
  rw [parseLatlonPolygons_packed packed enough, validatePolygon,
    if_neg (by rw [List.length_map]; omega)] at read
  dsimp only at read
  split at read
  · next issue rejected =>
      obtain ⟨rfl, rfl⟩ := Prod.mk.inj (Except.ok.inj read)
      split at rejected
      · obtain rfl := Except.error.inj rejected
        exact absurd rfl (accepted _ List.mem_cons_self)
      · cases rejected
  · next ring closed =>
      obtain ⟨rfl, rfl⟩ := Prod.mk.inj (Except.ok.inj read)
      split at closed
      · cases closed
      · obtain rfl := Except.ok.inj closed
        rfl

/-- Blocks of packed pairs give the same points as storm motion lines and as outlook areas where
all longitudes are written with 40 degrees or more.
-/
theorem packedPairs_alike_iff {calendar : Calendar} {referenceTime : UtcTime}
    (lead : MotionLead calendar referenceTime) {tokens : List Text}
    (packed : ∀ token ∈ tokens, IsPackedPair token) (enough : 3 ≤ tokens.length)
    {polygons : List (LatLonPolygon ℚ)} {issues : List ProductParseIssue}
    (read : parseLatlonPolygonsWithIssues (joinWords (latlonMarker :: tokens))
      = .ok (polygons, issues))
    (accepted : ∀ issue ∈ issues, issue.code ≠ "latlon_geometry_invalid".toList)
    : (∃ entries notes outlooks,
        parseTimeMotLocEntriesWithIssues calendar (joinWords (lead.line tokens)) referenceTime
          = .ok (entries, notes)
        ∧ parsePolygonTokens (joinWords tokens) = .ok outlooks
        ∧ DecodedAlike polygons entries outlooks)
      ↔ ∀ token ∈ tokens, 4000 ≤ digitsNat (token.drop 4) := by
  have some : tokens ≠ [] := List.length_pos_iff.mp (by omega)
  have rings := polygons_of_accepted packed enough read accepted
  have areas := parsePolygonTokens_packed packed enough
  obtain ⟨entry, notes, motion, points⟩ := lead.parseTimeMotLocEntries_line packed some
  have same : (∀ token ∈ tokens, 4000 ≤ digitsNat (token.drop 4))
      ↔ tokens.map shiftedPoint = tokens.map plainPoint := by
    rw [List.map_inj_left]
    exact forall₂_congr fun token _ => (shiftedPoint_eq_plainPoint_iff token).symm
  rw [same, motion, areas]
  constructor
  · rintro ⟨entries, _, outlooks, read, -, alike⟩
    obtain ⟨rfl, -⟩ := Prod.mk.inj (Except.ok.inj read)
    obtain ⟨decoded, fromMotion, fromBlock, -⟩ := alike
    rw [rings] at fromBlock
    rw [List.map_singleton, points] at fromMotion
    obtain rfl := List.singleton_inj.mp fromMotion
    exact map_eq_of_closeRing (List.singleton_inj.mp fromBlock)
  · intro equal
    refine ⟨[entry], notes, _, rfl, rfl, tokens.map plainPoint, ?_, ?_, rfl⟩
    · rw [List.map_singleton, points]
    · rw [rings, equal]

/-- A block of three pairs is not rejected. -/
theorem parseLatlonPolygons_triangle {tokens : List Text}
    (packed : ∀ token ∈ tokens, IsPackedPair token) (three : tokens.length = 3)
    : parseLatlonPolygonsWithIssues (joinWords (latlonMarker :: tokens))
      = .ok ([⟨closeRing (tokens.map shiftedPoint),
          formatPolygonWkt (closeRing (tokens.map shiftedPoint))⟩], []) := by
  have short : ¬ 4 < (closeRing (tokens.map shiftedPoint)).length := by
    have bound := length_closeRing_le (tokens.map shiftedPoint)
    rw [List.length_map, three] at bound
    omega
  rw [parseLatlonPolygons_packed packed (by omega), validatePolygon,
    if_neg (by rw [List.length_map]; omega), if_neg fun crossing => short crossing.1]

/-- A line of March 3, 2025. -/
def stormLead : MotionLead (gregorian fun _ => none) 1741000000000000000 where
  time := "0030Z".toList
  direction := ["270DEG".toList]
  speed := ["30KT".toList]
  timeUtc := 1740961800000000000
  degrees := 270
  knots := 30
  areWords := by decide
  readsTime := by decide
  readsDirection _ := rfl
  readsSpeed _ := rfl

/-- A triangle around 95 degrees west. -/
def easternPairs : List Text := ["40009500".toList, "41009500".toList, "40009600".toList]

theorem easternPairs_packed : ∀ token ∈ easternPairs, IsPackedPair token := by decide

theorem easternPairs_alike
    : (∃ entries notes outlooks,
        parseTimeMotLocEntriesWithIssues (gregorian fun _ => none)
          (joinWords (stormLead.line easternPairs)) 1741000000000000000
          = .ok (entries, notes)
        ∧ parsePolygonTokens (joinWords easternPairs) = .ok outlooks
        ∧ DecodedAlike
            [⟨closeRing (easternPairs.map shiftedPoint),
              formatPolygonWkt (closeRing (easternPairs.map shiftedPoint))⟩]
            entries outlooks)
      ↔ ∀ token ∈ easternPairs, 4000 ≤ digitsNat (token.drop 4) := by
  exact packedPairs_alike_iff stormLead easternPairs_packed (by decide)
    (parseLatlonPolygons_triangle easternPairs_packed rfl) nofun

/-- A triangle around 110 degrees west, written without the hundreds. -/
def westernPairs : List Text := ["40001000".toList, "41001000".toList, "40001200".toList]

theorem westernPairs_packed : ∀ token ∈ westernPairs, IsPackedPair token := by decide

/-- The warning polygon is at 110 degrees west, the other two at 10 degrees west. -/
theorem westernPairs_differ
    : ∃ polygons entries notes outlooks,
        parseLatlonPolygonsWithIssues (joinWords (latlonMarker :: westernPairs))
          = .ok (polygons, [])
        ∧ parseTimeMotLocEntriesWithIssues (gregorian fun _ => none)
            (joinWords (stormLead.line westernPairs)) 1741000000000000000
          = .ok (entries, notes)
        ∧ parsePolygonTokens (joinWords westernPairs) = .ok outlooks
        ∧ ¬ DecodedAlike polygons entries outlooks := by
  obtain ⟨entry, notes, motion, points⟩ :=
    stormLead.parseTimeMotLocEntries_line westernPairs_packed (by decide)
  refine ⟨_, [entry], notes, _, parseLatlonPolygons_triangle westernPairs_packed rfl, motion,
    parsePolygonTokens_packed westernPairs_packed (by decide), ?_⟩
  rintro ⟨decoded, fromMotion, fromBlock, -⟩
  rw [List.map_singleton, points] at fromMotion
  obtain rfl := List.singleton_inj.mp fromMotion
  have rings
      : closeRing (westernPairs.map shiftedPoint) = closeRing (westernPairs.map plainPoint) :=
    List.singleton_inj.mp fromBlock
  have same := map_eq_of_closeRing rings
  have shifted := (shiftedPoint_eq_plainPoint_iff "40001000".toList).mp
    (List.map_inj_left.mp same _ List.mem_cons_self)
  exact absurd shifted (by decide)

end Emwin.Parser
