import Emwin.Parser.Metar
import Emwin.Parser.TafGroups

/-! Aviation weather reports as they are written: what each group says, and what the words of a
report add up to.
-/

namespace Emwin.Parser
open Library

-----------------------------------------------------------------------------------------
-- Written reports
-----------------------------------------------------------------------------------------

def metarClear : List Text := ["CLR".toList]

/-- Degrees, below zero behind an `M`. -/
structure WrittenTemperature where
  minus : Bool
  degrees : Digits 2
  deriving DecidableEq, Repr

def WrittenTemperature.text (temperature : WrittenTemperature) : Text :=
  (if temperature.minus then "M".toList else []) ++ temperature.degrees.text

def WrittenTemperature.value (temperature : WrittenTemperature) : Int :=
  if temperature.minus then -temperature.degrees.value else temperature.degrees.value

inductive WrittenAltimeter where
  | hectopascals (pressure : Digits 4)
  | inches (pressure : Digits 4)
  deriving DecidableEq, Repr

def WrittenAltimeter.text : WrittenAltimeter → Text
  | .hectopascals pressure => 'Q' :: pressure.text
  | .inches pressure => 'A' :: pressure.text

def MetarReportKind.text : MetarReportKind → Text
  | .metar => "METAR".toList
  | .speci => "SPECI".toList

/-- The groups between time and remarks, in the usual order. -/
structure WrittenGroups where
  wind : Option WrittenWind
  visibility : Option WrittenVisibility
  weather : List WrittenWeather
  sky : List (WrittenSky metarClear)
  temperature : WrittenTemperature
  dewpoint : WrittenTemperature
  altimeter : WrittenAltimeter
  deriving Repr

def WrittenGroups.pair (groups : WrittenGroups) : Text :=
  groups.temperature.text ++ '/' :: groups.dewpoint.text

def WrittenGroups.words (groups : WrittenGroups) : List Text :=
  (groups.wind.map WrittenWind.text).toList
  ++ (groups.visibility.map WrittenVisibility.words).getD []
  ++ groups.weather.map WrittenWeather.text
  ++ groups.sky.map WrittenSky.text
  ++ [groups.pair, groups.altimeter.text]

/-- A word of remarks: no blank, no control character, and not the end of the report. -/
structure IsRemark (word : Text) : Prop where
  nonempty : word ≠ []
  solid : ∀ c ∈ word, isAsciiWhitespace c = false
  shown : ∀ c ∈ word, isAsciiControl c = false
  goesOn : '=' ∉ word

structure WrittenMetar where
  kind : MetarReportKind
  correction : Bool
  station : Text
  time : Digits 6
  groups : WrittenGroups
  remarks : Option (List Text)
  isStation : isMetarStation station = true
  remarked : ∀ remarks' ∈ remarks, remarks' ≠ [] ∧ ∀ word ∈ remarks', IsRemark word

/-- The station and all in front of it. -/
def WrittenMetar.heading (written : WrittenMetar) : List Text :=
  written.kind.text :: ((if written.correction then ["COR".toList] else []) ++ [written.station])

def WrittenMetar.observationTime (written : WrittenMetar) : Text := written.time.text ++ ['Z']

/-- The remarks and their mark. -/
def WrittenMetar.remarkWords (written : WrittenMetar) : List Text :=
  (written.remarks.map ("RMK".toList :: ·)).getD []

def WrittenMetar.words (written : WrittenMetar) : List Text :=
  written.heading
  ++ written.observationTime :: (written.groups.words ++ written.remarkWords)

-----------------------------------------------------------------------------------------
-- What they say
-----------------------------------------------------------------------------------------

def WrittenWind.metar (wind : WrittenWind) : MetarWind where
  directionDegrees := wind.direction.map Digits.value
  speedKt := wind.speed.value
  gustKt := wind.gust.map WrittenSpeed.value
  isVariable := wind.direction.isNone

def WrittenSky.metar {clearWords : List Text} : WrittenSky clearWords → MetarSkyCondition
  | .clear word _ => ⟨word, none, none⟩
  | .layer amount height kind =>
      ⟨amount.text, some (height.value * 100), kind.map CloudKind.text⟩
  | .vertical height => ⟨"VV".toList, some (height.value * 100), none⟩

/-- The groups that were written. -/
def WrittenGroups.body (groups : WrittenGroups) : MetarBody where
  wind := groups.wind.map WrittenWind.metar
  visibility := groups.visibility.map WrittenVisibility.text
  weather := groups.weather.map WrittenWeather.text
  skyConditions := groups.sky.map WrittenSky.metar
  temperatureC := some groups.temperature.value
  dewpointC := some groups.dewpoint.value
  altimeter := some groups.altimeter.text

/-- A report with these groups and remarks. -/
def WrittenMetar.reportOf (written : WrittenMetar) (body : MetarBody) (remarks : Option Text)
    : MetarReport where
  kind := written.kind
  station := written.station
  observationTime := written.observationTime
  correction := written.correction
  wind := body.wind
  visibility := body.visibility
  weather := body.weather
  skyConditions := body.skyConditions
  temperatureC := body.temperatureC
  dewpointC := body.dewpointC
  altimeter := body.altimeter
  remarks
  raw := joinWords written.words

/-- The report that was written. -/
def WrittenMetar.report (written : WrittenMetar) : MetarReport :=
  written.reportOf written.groups.body (written.remarks.map joinWords)

/-- Visibility of one word, no vertical visibility, and nothing in the remarks that looks like
the mark of a correction.
-/
structure WrittenMetar.Kept (written : WrittenMetar) : Prop where
  visibility : ∀ whole above below, written.groups.visibility ≠ some (.mixed whole above below)
  sky : ∀ sky ∈ written.groups.sky, ¬ sky.IsVertical
  remarks : ∀ remarks ∈ written.remarks, "COR".toList ∉ remarks

-----------------------------------------------------------------------------------------
-- What any words add up to
-----------------------------------------------------------------------------------------

/-- What holds of a report as far as some words were read: it has none of them as remarks, what it
has as its visibility is one of them, and its covers are known ones.
-/
structure ReadOf (words : List Text) (body : MetarBody) : Prop where
  before : body.inRemarks = false
  noRemarks : body.remarksTokens = []
  visibility : ∀ visibility ∈ body.visibility, visibility ∈ words
  covers : ∀ condition ∈ body.skyConditions, condition.cover ∈ metarCovers

theorem parseMetarSkyCondition_spec {token : Text} {condition : MetarSkyCondition}
    (read : parseMetarSkyCondition token = some condition)
    : condition.cover ∈ metarCovers ∧ condition.cover <+: token := by
  rw [parseMetarSkyCondition, Option.bind_eq_bind, Option.bind_eq_some_iff] at read
  obtain ⟨cover, front, read⟩ := read
  obtain ⟨back, rfl, -⟩ := getSlice_zero_eq_some front
  by_cases known : cover ∈ metarCovers
  · rw [guard, if_pos known] at read
    obtain rfl := Option.some.inj read
    exact ⟨known, List.prefix_append cover back⟩
  · simp [guard, if_neg known] at read

theorem readOf_addGroup {words : List Text} {body : MetarBody} {token : Text}
    (readOf : ReadOf words body) (among : token ∈ words) (wind : Option MetarWind)
    : ReadOf words (addGroup body token wind) := by
  obtain ⟨before, noRemarks, visibility, covers⟩ := readOf
  cases wind with
  | some wind => exact ⟨before, noRemarks, visibility, covers⟩
  | none =>
      rw [addGroup, addCalmToken]
      split
      · refine ⟨before, noRemarks, fun visibility' same => ?_, covers⟩
        obtain rfl : token = visibility' := by simpa using same
        exact among
      · split
        · exact ⟨before, noRemarks, visibility, covers⟩
        · split
          · exact ⟨before, noRemarks, visibility, covers⟩
          · split
            · next condition read =>
                refine ⟨before, noRemarks, visibility, fun other member => ?_⟩
                rcases List.mem_append.mp member with member | member
                · exact covers other member
                · obtain rfl := List.mem_singleton.mp member
                  exact (parseMetarSkyCondition_spec read).1
            · split <;> exact ⟨before, noRemarks, visibility, covers⟩

/-- Words of one byte a character are read. -/
theorem returns_parseMetarWind {token : Text} (ascii : IsAscii token)
    : Returns (parseMetarWind token) := by
  rw [parseMetarWind]
  split
  · exact returns_pure _
  · next core stripped =>
      split
      · exact returns_pure _
      · split
        · exact returns_pure _
        · next long =>
            obtain rfl := stripSuffix_eq_some stripped
            have asciiCore : IsAscii core := fun c member => ascii c (by simp [member])
            rw [asciiCore.utf8Len_eq] at long
            rw [asciiCore.sliceTo_eq (by omega), asciiCore.sliceFrom_eq (by omega)]
            exact returns_pure _

/-- What marks remarks and corrections. -/
def metarMarks : List Text := ["RMK".toList, "COR".toList]

/-- A word of a group. -/
theorem addMetarToken_eq {body : MetarBody} {token : Text} (notMark : token ∉ metarMarks)
    (before : body.inRemarks = false)
    : addMetarToken body token
      = if body.wind.isNone then addGroup body token <$> parseMetarWind token
        else .ok (addGroup body token none) := by
  have notRemarks : token ≠ "RMK".toList := fun same => notMark (by simp [same, metarMarks])
  have notCorrection : token ≠ "COR".toList := fun same => notMark (by simp [same, metarMarks])
  rw [addMetarToken, if_neg notCorrection, if_neg (by simp [before]), if_neg notRemarks]
  rfl

/-- One word more. -/
theorem readOf_addMetarToken {words : List Text} {body : MetarBody} {token : Text}
    (readOf : ReadOf words body) (among : token ∈ words) (notMark : token ∉ metarMarks)
    (ascii : IsAscii token)
    : ∃ body', addMetarToken body token = .ok body' ∧ ReadOf words body' := by
  rw [addMetarToken_eq notMark readOf.before]
  split
  · obtain ⟨wind, read⟩ := returns_parseMetarWind ascii
    rw [read]
    exact ⟨_, rfl, readOf_addGroup readOf among wind⟩
  · exact ⟨_, rfl, readOf_addGroup readOf among none⟩

/-- Words up to the remarks, by induction on them. -/
theorem exists_foldlM_addMetarToken {words all : List Text} (among : words ⊆ all)
    (notMark : ∀ word ∈ words, word ∉ metarMarks) (ascii : ∀ word ∈ words, IsAscii word)
    {body : MetarBody} (readOf : ReadOf all body)
    : ∃ body', words.foldlM addMetarToken body = .ok body' ∧ ReadOf all body' := by
  induction words generalizing body with
  | nil => exact ⟨body, rfl, readOf⟩
  | cons word words ih =>
      obtain ⟨next, step, readNext⟩ := readOf_addMetarToken readOf (among (by simp))
        (notMark word (by simp)) (ascii word (by simp))
      rw [List.foldlM_cons, step, ok_bind]
      exact ih (fun other member => among (by simp [member]))
        (fun other member => notMark other (by simp [member]))
        (fun other member => ascii other (by simp [member])) readNext

/-- Words of remarks but for those that look like the mark of a correction, by induction on them.
-/
theorem foldlM_addMetarToken_remarks (remarks : List Text) {body : MetarBody}
    (inRemarks : body.inRemarks = true)
    : remarks.foldlM addMetarToken body
      = .ok { body with remarksTokens := body.remarksTokens ++ remarks.filter (· ≠ "COR".toList) }
    := by
  induction remarks generalizing body with
  | nil => simp [pure, Except.pure]
  | cons word remarks ih =>
      rw [List.foldlM_cons, addMetarToken]
      by_cases correction : word = "COR".toList
      · rw [if_pos correction]
        simp only [pure, Except.pure, ok_bind]
        rw [ih inRemarks, List.filter_cons_of_neg (by simpa using correction)]
      · rw [if_neg correction, if_pos inRemarks]
        simp only [pure, Except.pure, ok_bind]
        rw [@ih { body with remarksTokens := body.remarksTokens ++ [word] } inRemarks,
          List.filter_cons_of_pos (by simpa using correction)]
        simp

-----------------------------------------------------------------------------------------
-- Words on their own
-----------------------------------------------------------------------------------------

theorem metarWindBehind_strength (wind : WrittenWind) (directionDegrees : Option Nat)
    (isVariable : Bool)
    : metarWindBehind directionDegrees isVariable wind.strength
      = some ⟨directionDegrees, wind.speed.value, wind.gust.map WrittenSpeed.value, isVariable⟩ := by
  have free : 'G' ∉ wind.speed.text := not_mem_of_digits wind.speed.digits rfl
  rw [metarWindBehind, WrittenWind.strength]
  cases wind.gust with
  | none =>
      simp only [splitOnce_eq_none free, wind.speed.parseUnsigned_eq]
      rfl
  | some gust =>
      simp only [splitOnce_append_cons gust.text free, wind.speed.parseUnsigned_eq,
        gust.parseUnsigned_eq]
      rfl

theorem parseMetarWind_text (wind : WrittenWind)
    : parseMetarWind wind.text = .ok (some wind.metar) := by
  rw [parseMetarWind, WrittenWind.text, WrittenWind.metar]
  cases direction : wind.direction with
  | none =>
      simp only [stripSuffix_append, stripPrefix_append, metarWindBehind_strength]
      rfl
  | some digits =>
      obtain ⟨notVariable, long, cut, behind⟩ := wind.cut_direction direction
      simp only [stripSuffix_append, notVariable, if_neg long, cut, behind, ok_bind,
        digits.parseUnsigned_eq (2 ^ 16) (by decide) (by decide), Option.bind_some,
        metarWindBehind_strength]
      rfl

theorem parseMetarWind_of_not_knots {token : Text} (other : ¬ "KT".toList <:+ token)
    : parseMetarWind token = .ok none := by
  rw [parseMetarWind, stripSuffix, if_neg other]
  rfl

theorem parseMetarSkyCondition_layer (amount : CloudAmount) (height : Digits 3)
    (kind : Option CloudKind)
    : parseMetarSkyCondition
        (amount.text ++ height.text ++ (kind.map CloudKind.text).getD [])
      = some ⟨amount.text, some (height.value * 100), kind.map CloudKind.text⟩ := by
  have size : utf8Len amount.text = 3 := by cases amount <;> decide
  have known : amount.text ∈ metarCovers := by cases amount <;> decide
  have cover := getSlice_append [] amount.text (height.text ++ (kind.map CloudKind.text).getD [])
  have digits := getSlice_append amount.text height.text ((kind.map CloudKind.text).getD [])
  have behind := splitOff_append (amount.text ++ height.text) ((kind.map CloudKind.text).getD [])
  have zero : utf8Len [] = 0 := rfl
  rw [utf8Len_append, size, height.utf8Len_eq] at digits behind
  rw [List.nil_append, size, ← List.append_assoc, zero] at cover
  have modifier : (getFrom 6 (amount.text ++ height.text ++ (kind.map CloudKind.text).getD [])).filter
      (fun suffix => suffix ≠ []) = kind.map CloudKind.text := by
    rw [getFrom, behind]
    rcases kind with _ | kind
    · rfl
    · cases kind <;> rfl
  rw [parseMetarSkyCondition, cover, digits, modifier, Option.filter_some, if_pos height.digits]
  simp only [Option.bind_eq_bind, Option.bind_some, guard, if_pos known,
    height.parseUnsigned_eq (2 ^ 32) (by decide) (by decide)]
  rfl

theorem Digits.parseSigned_eq {count : Nat} (number : Digits count) (bound : Nat)
    (some : count ≠ 0) (fits : 10 ^ count ≤ bound)
    : parseSigned bound number.text = .some (number.value : Int) := by
  rw [parseSigned_digits (number.ne_nil some) number.digits]
  exact if_pos (number.value_lt.trans_le fits)

theorem parseSignedTemperature_text (temperature : WrittenTemperature)
    : parseSignedTemperature temperature.text = some temperature.value := by
  obtain ⟨minus, degrees⟩ := temperature
  obtain ⟨first, rest, split, digit⟩ := degrees.exists_first (by decide)
  have noSlash : '/' ∉ degrees.text := degrees.not_mem rfl
  have notM : first ≠ 'M' := by
    rintro rfl
    cases digit
  have notMinus : first ≠ '-' := by
    rintro rfl
    cases digit
  have read := degrees.parseSigned_eq (2 ^ 15) (by decide) (by decide)
  cases minus with
  | false =>
      have free : '/' ∉ first :: rest := split ▸ noSlash
      have other : first :: rest ≠ "//".toList := by
        rintro same
        exact free (by simp [same])
      rw [split, (by decide : 2 ^ 15 = 32768)] at read
      simp only [WrittenTemperature.text, WrittenTemperature.value, Bool.false_eq_true, if_false,
        List.nil_append, split, parseSignedTemperature, guard]
      rw [if_pos ⟨by simp, other, free⟩]
      simp [notM, notMinus, read]
  | true =>
      have free : '/' ∉ 'M' :: first :: rest := by
        rw [split] at noSlash
        simpa using noSlash
      have other : 'M' :: first :: rest ≠ "//".toList := by
        rintro same
        exact free (by simp [same])
      rw [split, (by decide : 2 ^ 15 = 32768)] at read
      have text : ("M".toList : Text) ++ (first :: rest) = 'M' :: first :: rest := rfl
      simp only [WrittenTemperature.text, WrittenTemperature.value, if_true, split, text,
        parseSignedTemperature, guard]
      rw [if_pos ⟨by simp, other, free⟩]
      simp [notM, notMinus, read]

theorem WrittenTemperature.not_slash (temperature : WrittenTemperature)
    : '/' ∉ temperature.text := by
  have digits : '/' ∉ temperature.degrees.text := temperature.degrees.not_mem rfl
  rw [WrittenTemperature.text]
  split <;> simpa using digits

theorem parseTemperaturePair_pair (groups : WrittenGroups)
    : parseTemperaturePair groups.pair
      = some (groups.temperature.value, some groups.dewpoint.value) := by
  rw [parseTemperaturePair, WrittenGroups.pair,
    splitOnce_append_cons _ groups.temperature.not_slash]
  simp [parseSignedTemperature_text]

/-- No slash, no pair. -/
theorem parseTemperaturePair_eq_none {token : Text} (free : '/' ∉ token)
    : parseTemperaturePair token = none := by
  rw [parseTemperaturePair, splitOnce_eq_none free]
  rfl

theorem WrittenWeather.not_altimeter (weather : WrittenWeather)
    : isAltimeterToken weather.text = false := by
  have letter {c : Char} (member : c ∈ weather.letters) : c.isDigit = false := by
    have upper := List.all_eq_true.mp weather.upper c member
    cases digit : c.isDigit with
    | false => rfl
    | true => rw [not_isUpper_of_isDigit digit] at upper; cases upper
  have found : ∃ c ∈ weather.text.tail, c.isDigit = false := by
    obtain ⟨code, rest, letters, ⟨-, split⟩ | ⟨sign, -, split⟩⟩ := weather.exists_start
    · obtain ⟨first, second, two⟩ := List.length_eq_two.mp code.length_text
      exact ⟨second, by simp [split, two], letter (by simp [letters, two])⟩
    · obtain ⟨first, second, two⟩ := List.length_eq_two.mp code.length_text
      exact ⟨second, by simp [split, two], letter (by simp [letters, two])⟩
  obtain ⟨c, member, other⟩ := found
  rw [isAltimeterToken, Bool.and_eq_false_iff]
  refine .inr (Bool.eq_false_iff.mpr fun digits => ?_)
  rw [List.all_eq_true.mp digits c member] at other
  cases other

theorem WrittenWeather.isMetarWeather (weather : WrittenWeather)
    : isMetarWeatherToken weather.text = true := by
  have some : weather.codes.length ≠ 0 := by simpa using weather.some
  have few := weather.few
  have size := weather.length_letters
  have ascii : IsAscii weather.letters := fun c member =>
    utf8Size_of_isAlphanum (isAlphanum_of_isUpper (List.all_eq_true.mp weather.upper c member))
  have notAltimeter : isAltimeterToken weather.letters = false :=
    { weather with intensity := .moderate }.not_altimeter
  have unlisted : weather.letters
      ∉ ["AUTO", "NOSIG", "RMK", "COR", "AO1", "AO2", "CLR", "SKC"].map String.toList :=
    weather.letters_not_mem (by decide) fun literal member code => by
      revert literal
      cases code <;> decide
  simp only [isMetarWeatherToken, weather.trimmed, ascii.utf8Len_eq, size, notAltimeter,
    Bool.and_eq_true, decide_eq_true_eq, Bool.not_false, and_true]
  exact ⟨⟨⟨by omega, by omega⟩, weather.upper⟩, unlisted⟩

theorem WrittenWeather.not_metarCover (weather : WrittenWeather)
    : parseMetarSkyCondition weather.text = none := by
  cases parsed : parseMetarSkyCondition weather.text with
  | none => rfl
  | some sky =>
      obtain ⟨known, front⟩ := parseMetarSkyCondition_spec parsed
      have other : ∀ cover ∈ metarCovers,
          2 ≤ cover.length ∧ (∀ c ∈ cover.head?, c ≠ '+' ∧ c ≠ '-') := by
        decide
      have unknown : ∀ cover ∈ metarCovers, ∀ code : WeatherCode, code.text ≠ cover.take 2 := by
        intro cover member code
        revert cover
        cases code <;> decide
      obtain ⟨long, letter⟩ := other _ known
      exact absurd front (weather.not_start long (unknown _ known) letter)

theorem isMetarVisibilityToken_eq_false {token : Text}
    (unlisted : token ∉ ["CAVOK", "9999", "9999NDV"].map String.toList)
    (notMiles : ¬ "SM".toList <:+ token) (letter : ∃ c ∈ token, c.isDigit = false)
    : isMetarVisibilityToken token = false := by
  have notDigits : token.all Char.isDigit = false := List.all_eq_false.mpr (by simpa using letter)
  simp only [List.map_cons, List.map_nil, List.mem_cons, List.not_mem_nil, or_false, not_or]
    at unlisted
  rw [isMetarVisibilityToken, decide_eq_false unlisted.1, decide_eq_false unlisted.2.1,
    decide_eq_false unlisted.2.2, decide_eq_false notMiles, notDigits]
  rfl

theorem WrittenWeather.not_metarVisibility (weather : WrittenWeather)
    : isMetarVisibilityToken weather.text = false := by
  refine isMetarVisibilityToken_eq_false
    (weather.not_mem (by decide) fun literal member code => ?_)
    (weather.not_suffix rfl fun code => by cases code <;> decide) ?_
  · revert literal
    cases code <;> decide
  · obtain ⟨code, front, split⟩ := weather.exists_end
    have letters : code.text.all Char.isDigit = false := by cases code <;> decide
    obtain ⟨c, member, other⟩ := List.all_eq_false.mp letters
    exact ⟨c, by simp [split, member], by simpa using other⟩

-----------------------------------------------------------------------------------------
-- Words in a row
-----------------------------------------------------------------------------------------

theorem not_mark_of_mem {token : Text} {c : Char} (member : c ∈ token)
    (other : c.isUpper = false)
    : token ∉ metarMarks := by
  intro mark
  have upper : ∀ mark ∈ metarMarks, mark.all Char.isUpper = true := by decide
  rw [List.all_eq_true.mp (upper token mark) c member] at other
  cases other

theorem not_mark_of_digits {count : Nat} (number : Digits count) (some : count ≠ 0) {token : Text}
    (inside : number.text ⊆ token)
    : token ∉ metarMarks := by
  obtain ⟨first, rest, split, digit⟩ := number.exists_first some
  exact not_mark_of_mem (inside (by simp [split])) (not_isUpper_of_isDigit digit)

/-- Words of groups are shown and are no marks. -/
structure IsGroupWord (word : Text) : Prop where
  nonempty : word ≠ []
  written : word.all isReportChar = true
  notMark : word ∉ metarMarks

theorem WrittenWind.isGroupWord (wind : WrittenWind) : IsGroupWord wind.text where
  nonempty := by
    rw [WrittenWind.text]
    cases wind.direction <;> simp
  written := wind.written
  notMark := by
    have knots : ∀ mark ∈ metarMarks, ¬ "KT".toList <:+ mark := by decide
    intro mark
    refine knots _ mark ?_
    rw [WrittenWind.text]
    cases wind.direction with
    | none => exact List.suffix_append _ _
    | some direction => exact List.suffix_append _ _

theorem WrittenVisibility.isGroupWord (visibility : WrittenVisibility) {word : Text}
    (member : word ∈ visibility.words)
    : IsGroupWord word where
  nonempty := visibility.ne_nil word member
  written := visibility.written word member
  notMark := by
    have miles (above below : Numeral) : milesText above below ∉ metarMarks :=
      not_mark_of_mem (c := '/') (by simp [milesText]) rfl
    cases visibility with
    | cavok =>
        obtain rfl := List.mem_singleton.mp member
        decide
    | metres distance =>
        obtain rfl := List.mem_singleton.mp member
        exact not_mark_of_digits distance (by decide) fun c inside => inside
    | miles beyond whole =>
        obtain rfl := List.mem_singleton.mp member
        exact not_mark_of_digits whole.number whole.some fun c inside => by
          simp [Numeral.text, inside]
    | fraction above below =>
        obtain rfl := List.mem_singleton.mp member
        exact miles above below
    | mixed whole above below =>
        simp only [WrittenVisibility.words, List.mem_cons, List.not_mem_nil, or_false] at member
        rcases member with rfl | rfl
        · exact not_mark_of_digits whole.number whole.some fun c inside => inside
        · exact miles above below

theorem WrittenWeather.isGroupWord (weather : WrittenWeather) : IsGroupWord weather.text where
  nonempty := weather.ne_nil
  written := weather.written
  notMark := weather.not_mem (by decide) fun literal member code => by
    revert literal
    cases code <;> decide

theorem WrittenSky.isGroupWord (sky : WrittenSky metarClear) : IsGroupWord sky.text where
  nonempty := by
    cases sky with
    | clear word known =>
        have all : ∀ word ∈ metarClear, word ≠ [] := by decide
        exact all word known
    | layer amount height kind => cases amount <;> simp [WrittenSky.text, CloudAmount.text]
    | vertical height => simp [WrittenSky.text]
  written := sky.written (by decide)
  notMark := by
    cases sky with
    | clear word known =>
        have all : ∀ word ∈ metarClear, word ∉ metarMarks := by decide
        exact all word known
    | layer amount height kind =>
        exact not_mark_of_digits height (by decide) fun c inside => by
          simp [WrittenSky.text, inside]
    | vertical height =>
        exact not_mark_of_digits height (by decide) fun c inside => by
          simp [WrittenSky.text, inside]

theorem WrittenTemperature.written (temperature : WrittenTemperature)
    : temperature.text.all isReportChar = true := by
  have literal : "M".toList.all isReportChar = true := by decide
  rw [WrittenTemperature.text, List.all_append, temperature.degrees.written]
  split
  · rw [literal]
    rfl
  · rfl

theorem WrittenGroups.pair_isGroupWord (groups : WrittenGroups) : IsGroupWord groups.pair where
  nonempty := by simp [WrittenGroups.pair]
  written := by
    have literal : isReportChar '/' = true := by decide
    simp only [WrittenGroups.pair, List.all_append, List.all_cons, WrittenTemperature.written,
      literal, Bool.and_self]
  notMark := not_mark_of_mem (c := '/') (by simp [WrittenGroups.pair]) rfl

theorem WrittenAltimeter.isGroupWord (altimeter : WrittenAltimeter)
    : IsGroupWord altimeter.text where
  nonempty := by cases altimeter <;> simp [WrittenAltimeter.text]
  written := by
    have literals : isReportChar 'Q' = true ∧ isReportChar 'A' = true := by decide
    cases altimeter <;> simp only [WrittenAltimeter.text, List.all_cons, Digits.written, literals,
      Bool.and_self]
  notMark := by
    cases altimeter with
    | hectopascals pressure =>
        exact not_mark_of_digits pressure (by decide) fun c inside => List.mem_cons_of_mem _ inside
    | inches pressure =>
        exact not_mark_of_digits pressure (by decide) fun c inside => List.mem_cons_of_mem _ inside

theorem WrittenGroups.isGroupWord (groups : WrittenGroups) {word : Text}
    (member : word ∈ groups.words)
    : IsGroupWord word := by
  simp only [WrittenGroups.words, List.mem_append, Option.mem_toList, Option.map_eq_some_iff,
    List.mem_map, List.mem_cons, List.not_mem_nil, or_false] at member
  rcases member with (((⟨wind, -, rfl⟩ | member) | ⟨weather, -, rfl⟩) | ⟨sky, -, rfl⟩)
    | (rfl | rfl)
  · exact wind.isGroupWord
  · cases visibility : groups.visibility with
    | none =>
        rw [visibility] at member
        cases member
    | some visibility' =>
        rw [visibility] at member
        exact visibility'.isGroupWord member
  · exact weather.isGroupWord
  · exact sky.isGroupWord
  · exact groups.pair_isGroupWord
  · exact groups.altimeter.isGroupWord

/-- A word that is not in knots is no wind. -/
theorem addMetarToken_calm {body : MetarBody} {token : Text} (notMark : token ∉ metarMarks)
    (before : body.inRemarks = false) (calm : ¬ "KT".toList <:+ token)
    : addMetarToken body token = .ok (addCalmToken body token) := by
  rw [addMetarToken_eq notMark before, parseMetarWind_of_not_knots calm]
  split <;> rfl

theorem addMetarToken_wind (wind : WrittenWind) {body : MetarBody}
    (before : body.inRemarks = false) (lacks : body.wind = none)
    : addMetarToken body wind.text = .ok { body with wind := some wind.metar } := by
  rw [addMetarToken_eq wind.isGroupWord.notMark before, if_pos (by simp [lacks]),
    parseMetarWind_text]
  rfl

/-- A visibility of one word. -/
theorem addMetarToken_visibility (visibility : WrittenVisibility)
    (whole : ∀ whole above below, visibility ≠ .mixed whole above below) {body : MetarBody}
    (before : body.inRemarks = false) (lacks : body.visibility = none)
    : visibility.words = [visibility.text]
      ∧ addMetarToken body visibility.text
        = .ok { body with visibility := some visibility.text } := by
  have single {word : Text} (words : visibility.words = [word])
      (isVisibility : isMetarVisibilityToken word = true) (calm : ¬ "KT".toList <:+ word)
      : visibility.words = [visibility.text]
        ∧ addMetarToken body visibility.text
          = .ok { body with visibility := some visibility.text } := by
    have text : visibility.text = word := by
      rw [WrittenVisibility.text, words, joinWords, List.intercalate_singleton]
    rw [text]
    refine ⟨words, ?_⟩
    rw [addMetarToken_calm (visibility.isGroupWord (by simp [words])).notMark before calm,
      addCalmToken, if_pos (by simp [lacks, isVisibility])]
  have miles {word : Text} (words : visibility.words = [word]) (miles : "SM".toList <:+ word)
      : visibility.words = [visibility.text]
        ∧ addMetarToken body visibility.text
          = .ok { body with visibility := some visibility.text } := by
    refine single words ?_ (not_knots_of_miles miles)
    simp only [isMetarVisibilityToken, miles, decide_true, Bool.or_true, Bool.true_or]
  cases visibility with
  | cavok => exact single rfl (by decide +kernel) (by decide)
  | metres distance =>
      refine single rfl ?_ (not_suffix_of_digits distance.digits ⟨'K', by decide, rfl⟩)
      simp only [isMetarVisibilityToken, distance.digits, distance.utf8Len_eq, decide_true,
        Bool.and_self, Bool.or_true]
  | miles beyond whole => exact miles rfl (List.suffix_append _ _)
  | fraction above below => exact miles rfl (List.suffix_append _ _)
  | mixed whole' above below => exact absurd rfl (whole whole' above below)

theorem WrittenWeather.not_slash (weather : WrittenWeather) : '/' ∉ weather.text := by
  rw [WrittenWeather.text, List.mem_append, not_or]
  constructor
  · cases weather.intensity <;> decide
  · intro member
    have upper := List.all_eq_true.mp weather.upper '/' member
    cases upper

/-- Weather adds up, by induction on it. -/
theorem foldlM_weather (weather : List WrittenWeather) {body : MetarBody}
    (before : body.inRemarks = false)
    : (weather.map WrittenWeather.text).foldlM addMetarToken body
      = .ok { body with weather := body.weather ++ weather.map WrittenWeather.text } := by
  induction weather generalizing body with
  | nil => simp [pure, Except.pure]
  | cons weather more ih =>
      have noPair : parseTemperaturePair weather.text = none :=
        parseTemperaturePair_eq_none weather.not_slash
      have step : addMetarToken body weather.text
          = .ok { body with weather := body.weather ++ [weather.text] } := by
        rw [addMetarToken_calm weather.isGroupWord.notMark before
          (weather.not_suffix rfl fun code => by cases code <;> decide)]
        simp [addCalmToken, weather.not_metarVisibility, noPair, weather.not_altimeter,
          weather.not_metarCover, weather.isMetarWeather]
      rw [List.map_cons, List.foldlM_cons, step, ok_bind,
        @ih { body with weather := body.weather ++ [weather.text] } before]
      simp

/-- A word of the sky that is no vertical visibility. -/
theorem addMetarToken_sky {sky : WrittenSky metarClear} (level : ¬ sky.IsVertical)
    {body : MetarBody} (before : body.inRemarks = false)
    : addMetarToken body sky.text
      = .ok { body with skyConditions := body.skyConditions ++ [sky.metar] } := by
  have adds (calm : ¬ "KT".toList <:+ sky.text)
      (noVisibility : isMetarVisibilityToken sky.text = false) (free : '/' ∉ sky.text)
      (noAltimeter : isAltimeterToken sky.text = false)
      (read : parseMetarSkyCondition sky.text = some sky.metar)
      : addMetarToken body sky.text
        = .ok { body with skyConditions := body.skyConditions ++ [sky.metar] } := by
    rw [addMetarToken_calm sky.isGroupWord.notMark before calm]
    simp [addCalmToken, noVisibility, parseTemperaturePair_eq_none free, noAltimeter, read]
  cases sky with
  | clear word known =>
      obtain rfl := List.mem_singleton.mp known
      exact adds (show ¬ "KT".toList <:+ "CLR".toList by decide)
        (show isMetarVisibilityToken "CLR".toList = false by decide +kernel)
        (show '/' ∉ "CLR".toList by decide)
        (show isAltimeterToken "CLR".toList = false by decide +kernel)
        (show parseMetarSkyCondition "CLR".toList = some ⟨"CLR".toList, none, none⟩ by
          decide +kernel)
  | layer amount height kind =>
      obtain ⟨last, ends, notT, notM⟩ := getLast?_layer amount height kind
      have inside : ∃ c ∈ (WrittenSky.layer amount height kind : WrittenSky metarClear).text,
          c.isDigit = false := by
        have letters : amount.text.all Char.isDigit = false := by cases amount <;> decide
        obtain ⟨c, member, other⟩ := List.all_eq_false.mp letters
        exact ⟨c, by simp [WrittenSky.text, member], by simpa using other⟩
      refine adds (not_suffix_of_last ends rfl notT)
        (isMetarVisibilityToken_eq_false ?_ (not_suffix_of_last ends rfl notM) inside) ?_ ?_
        (parseMetarSkyCondition_layer amount height kind)
      · cases amount <;> simp [WrittenSky.text, CloudAmount.text]
      · have digits : '/' ∉ height.text := height.not_mem rfl
        have kinds : '/' ∉ (kind.map CloudKind.text).getD [] := by
          rcases kind with _ | kind
          · simp
          · cases kind <;> decide
        cases amount <;> simp [WrittenSky.text, CloudAmount.text, digits, kinds]
      · cases amount <;> simp [WrittenSky.text, CloudAmount.text, isAltimeterToken]
  | vertical height => exact absurd trivial level

/-- The sky adds up, by induction on it. -/
theorem foldlM_sky {sky : List (WrittenSky metarClear)} (level : ∀ sky' ∈ sky, ¬ sky'.IsVertical)
    {body : MetarBody} (before : body.inRemarks = false)
    : (sky.map WrittenSky.text).foldlM addMetarToken body
      = .ok { body with skyConditions := body.skyConditions ++ sky.map WrittenSky.metar } := by
  induction sky generalizing body with
  | nil => simp [pure, Except.pure]
  | cons sky more ih =>
      rw [List.map_cons, List.foldlM_cons, addMetarToken_sky (level sky (by simp)) before, ok_bind,
        @ih (fun other member => level other (by simp [member]))
          { body with skyConditions := body.skyConditions ++ [sky.metar] } before]
      simp

/-- The last character of a number is no letter. -/
theorem Digits.exists_last {count : Nat} (number : Digits count) (some : count ≠ 0)
    : ∃ c, number.text.getLast? = .some c ∧ c.isDigit = true := by
  cases last : number.text.getLast? with
  | none => exact absurd (List.getLast?_eq_none_iff.mp last) (number.ne_nil some)
  | some c => exact ⟨c, rfl, number.isDigit_of_mem (List.mem_of_getLast? last)⟩

theorem not_suffix_of_number {count : Nat} (number : Digits count) (some : count ≠ 0)
    {text suffix : Text} {d : Char} (ends : number.text <:+ text)
    (letters : suffix.getLast? = .some d) (letter : d.isDigit = false)
    : ¬ suffix <:+ text := by
  obtain ⟨c, last, digit⟩ := number.exists_last some
  obtain ⟨front, rfl⟩ := ends
  refine not_suffix_of_last (c := c) (d := d) (by simp [last]) letters ?_
  rintro rfl
  rw [digit] at letter
  cases letter

theorem addMetarToken_pair (groups : WrittenGroups) {body : MetarBody}
    (before : body.inRemarks = false) (lacks : body.temperatureC = none)
    (lacksDewpoint : body.dewpointC = none)
    : addMetarToken body groups.pair
      = .ok { body with
          temperatureC := some groups.temperature.value
          dewpointC := some groups.dewpoint.value } := by
  have ends : groups.dewpoint.degrees.text <:+ groups.pair :=
    ⟨groups.temperature.text
      ++ '/' :: (if groups.dewpoint.minus then "M".toList else []), by
        simp [WrittenGroups.pair, WrittenTemperature.text]⟩
  have slash : '/' ∈ groups.pair := by simp [WrittenGroups.pair]
  have noVisibility : isMetarVisibilityToken groups.pair = false := by
    refine isMetarVisibilityToken_eq_false (fun member => ?_)
      (not_suffix_of_number groups.dewpoint.degrees (by decide) ends rfl rfl) ⟨'/', slash, rfl⟩
    have free : ∀ literal ∈ ["CAVOK", "9999", "9999NDV"].map String.toList, '/' ∉ literal := by
      decide
    exact free _ member slash
  rw [addMetarToken_calm groups.pair_isGroupWord.notMark before
    (not_suffix_of_number groups.dewpoint.degrees (by decide) ends rfl rfl)]
  simp [addCalmToken, noVisibility, lacks, lacksDewpoint, parseTemperaturePair_pair]

theorem addMetarToken_altimeter (altimeter : WrittenAltimeter) {body : MetarBody}
    (before : body.inRemarks = false) (lacks : body.altimeter = none)
    : addMetarToken body altimeter.text = .ok { body with altimeter := some altimeter.text } := by
  obtain ⟨letter, pressure, text, known⟩ : ∃ letter, ∃ pressure : Digits 4,
      altimeter.text = letter :: pressure.text ∧ (letter = 'Q' ∨ letter = 'A') := by
    cases altimeter with
    | hectopascals pressure => exact ⟨'Q', pressure, rfl, .inl rfl⟩
    | inches pressure => exact ⟨'A', pressure, rfl, .inr rfl⟩
  have ends : pressure.text <:+ altimeter.text := ⟨[letter], by simp [text]⟩
  have free : '/' ∉ altimeter.text := by
    have digits : '/' ∉ pressure.text := pressure.not_mem rfl
    rcases known with rfl | rfl <;> simp [text, digits]
  have noVisibility : isMetarVisibilityToken altimeter.text = false := by
    refine isMetarVisibilityToken_eq_false ?_
      (not_suffix_of_number pressure (by decide) ends rfl rfl) ⟨letter, by simp [text], ?_⟩
    · rcases known with rfl | rfl <;> simp [text]
    · rcases known with rfl | rfl <;> rfl
  have isAltimeter : isAltimeterToken altimeter.text = true := by
    have size : utf8Len altimeter.text = 5 := by
      rw [text, utf8Len_cons, pressure.utf8Len_eq]
      rcases known with rfl | rfl <;> rfl
    rw [isAltimeterToken, size]
    rcases known with rfl | rfl <;> simp [text, pressure.digits]
  rw [addMetarToken_calm altimeter.isGroupWord.notMark before
    (not_suffix_of_number pressure (by decide) ends rfl rfl)]
  simp [addCalmToken, noVisibility, parseTemperaturePair_eq_none free, isAltimeter, lacks]

/-- The words of groups add up to the groups, unless one of them is read as another. -/
theorem foldlM_words (groups : WrittenGroups)
    (whole : ∀ whole above below, groups.visibility ≠ some (.mixed whole above below))
    (level : ∀ sky ∈ groups.sky, ¬ sky.IsVertical)
    : groups.words.foldlM addMetarToken {} = .ok groups.body := by
  have wind : (groups.wind.map WrittenWind.text).toList.foldlM addMetarToken {}
      = .ok { wind := groups.wind.map WrittenWind.metar } := by
    cases groups.wind with
    | none => rfl
    | some wind =>
        rw [Option.map_some, Option.toList_some, List.foldlM_cons, addMetarToken_wind wind rfl rfl]
        rfl
  have visibility {body : MetarBody} (before : body.inRemarks = false)
      (lacks : body.visibility = none)
      : ((groups.visibility.map WrittenVisibility.words).getD []).foldlM addMetarToken body
        = .ok { body with visibility := groups.visibility.map WrittenVisibility.text } := by
    cases written : groups.visibility with
    | none =>
        have same : { body with visibility := none } = body := by rw [← lacks]
        exact congrArg Except.ok same.symm
    | some visibility =>
        obtain ⟨words, step⟩ := addMetarToken_visibility visibility
          (fun w a b same => whole w a b (written.trans (congrArg some same))) before lacks
        rw [Option.map_some, Option.getD_some, words, List.foldlM_cons, step]
        rfl
  rw [WrittenGroups.words, List.foldlM_append, List.foldlM_append, List.foldlM_append,
    List.foldlM_append, wind, ok_bind, visibility rfl rfl, ok_bind, foldlM_weather _ rfl, ok_bind,
    foldlM_sky level rfl, ok_bind, List.foldlM_cons, addMetarToken_pair groups rfl rfl rfl, ok_bind,
    List.foldlM_cons, addMetarToken_altimeter groups.altimeter rfl rfl]
  rfl

end Emwin.Parser
