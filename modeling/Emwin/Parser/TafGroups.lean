import Emwin.Parser.TafTermination

/-! Change groups with their conditions: which of them are read as they are written. -/

namespace Emwin.Parser
open Library

-----------------------------------------------------------------------------------------
-- Written conditions
-----------------------------------------------------------------------------------------

def tafClear : List Text := ["SKC".toList, "NSC".toList]

/-- Weather, or the end of it. -/
inductive TafWeather where
  | group (weather : WrittenWeather)
  | noneSignificant
  deriving DecidableEq, Repr

def TafWeather.text : TafWeather → Text
  | .group weather => weather.text
  | .noneSignificant => "NSW".toList

structure WrittenShear where
  height : Digits 3
  direction : Digits 3
  speed : Digits 2
  deriving DecidableEq, Repr

def WrittenShear.text (shear : WrittenShear) : Text :=
  "WS".toList ++ shear.height.text
  ++ '/' :: (shear.direction.text ++ shear.speed.text ++ "KT".toList)

/-- Conditions as they are written, in the usual order. -/
structure WrittenConditions where
  wind : Option WrittenWind
  visibility : Option WrittenVisibility
  weather : List TafWeather
  sky : List (WrittenSky tafClear)
  shear : Option WrittenShear
  deriving Repr

def WrittenConditions.words (written : WrittenConditions) : List Text :=
  (written.wind.map WrittenWind.text).toList
  ++ (written.visibility.map WrittenVisibility.words).getD []
  ++ written.weather.map TafWeather.text
  ++ written.sky.map WrittenSky.text
  ++ (written.shear.map WrittenShear.text).toList

-----------------------------------------------------------------------------------------
-- What they say
-----------------------------------------------------------------------------------------

def WrittenWind.taf (wind : WrittenWind) : TafWind where
  directionDegrees := wind.direction.map Digits.value
  speedKt := wind.speed.value
  gustKt := wind.gust.map WrittenSpeed.value
  isVariable := wind.direction.isNone

/-- A visibility with a blank between its words. -/
def WrittenVisibility.text (visibility : WrittenVisibility) : Text := joinWords visibility.words

def WrittenSky.taf {clearWords : List Text} : WrittenSky clearWords → TafSkyCondition
  | .clear word _ => ⟨word, none⟩
  | .layer amount height _ => ⟨amount.text, some (height.value * 100)⟩
  | .vertical height => ⟨"VV".toList, some (height.value * 100)⟩

def WrittenShear.taf (shear : WrittenShear) : TafWindShear where
  heightFtAgl := shear.height.value * 100
  directionDegrees := shear.direction.value
  speedKt := shear.speed.value

/-- The conditions that were written. -/
def WrittenConditions.taf (written : WrittenConditions) : TafConditions where
  wind := written.wind.map WrittenWind.taf
  visibility := written.visibility.map WrittenVisibility.text
  weather := written.weather.map TafWeather.text
  skyConditions := written.sky.map WrittenSky.taf
  windShear := written.shear.map WrittenShear.taf

-----------------------------------------------------------------------------------------
-- What is read of them
-----------------------------------------------------------------------------------------

/-- The distance of four digits is known as one only, and of two words the first is dropped. -/
def WrittenVisibility.readText : WrittenVisibility → Option Text
  | .cavok => some "CAVOK".toList
  | .metres distance => if distance.text = "9999".toList then some distance.text else none
  | .miles beyond whole =>
      some ((if beyond then "P".toList else []) ++ whole.text ++ "SM".toList)
  | .fraction above below => some (milesText above below)
  | .mixed whole above below =>
      if whole.text = "9999".toList then some whole.text else some (milesText above below)

/-- A vertical visibility is a cover without a height, or nothing. -/
def WrittenSky.readCover {clearWords : List Text} : WrittenSky clearWords → Option TafSkyCondition
  | .clear word _ => some ⟨word, none⟩
  | .layer amount height _ => some ⟨amount.text, some (height.value * 100)⟩
  | .vertical height =>
      if height.text.head? = some '0' then some ⟨"VV0".toList, none⟩ else none

/-- The conditions that are read. -/
def WrittenConditions.readTaf (written : WrittenConditions) : TafConditions where
  wind := written.wind.map WrittenWind.taf
  visibility := written.visibility.bind WrittenVisibility.readText
  weather := written.weather.map TafWeather.text
  skyConditions := written.sky.filterMap WrittenSky.readCover
  windShear := written.shear.map WrittenShear.taf

/-- A visibility of one word, in metres only at its best. -/
def WrittenVisibility.Whole : WrittenVisibility → Prop
  | .metres distance => distance.text = "9999".toList
  | .mixed _ _ _ => False
  | _ => True

def WrittenSky.IsVertical {clearWords : List Text} : WrittenSky clearWords → Prop
  | .vertical _ => True
  | _ => False

/-- Conditions without a visibility of other metres or of two words, or a vertical one. -/
structure WrittenConditions.Kept (written : WrittenConditions) : Prop where
  visibility : ∀ visibility ∈ written.visibility, visibility.Whole
  sky : ∀ sky ∈ written.sky, ¬ sky.IsVertical

theorem readText_eq_iff (visibility : WrittenVisibility)
    : visibility.readText = some visibility.text ↔ visibility.Whole := by
  cases visibility with
  | cavok => simp [WrittenVisibility.readText, WrittenVisibility.text, WrittenVisibility.words,
      joinWords, WrittenVisibility.Whole]
  | metres distance =>
      simp only [WrittenVisibility.readText, WrittenVisibility.text, WrittenVisibility.words,
        joinWords, WrittenVisibility.Whole, List.intercalate_singleton]
      split <;> simp_all
  | miles beyond whole => simp [WrittenVisibility.readText, WrittenVisibility.text,
      WrittenVisibility.words, joinWords, WrittenVisibility.Whole]
  | fraction above below => simp [WrittenVisibility.readText, WrittenVisibility.text,
      WrittenVisibility.words, joinWords, WrittenVisibility.Whole]
  | mixed whole above below =>
      have blank : ' ' ∈ joinWords [whole.text, milesText above below] := by
        simp [joinWords_cons_cons]
      have free {text : Text} (written : text.all isReportChar = true) : ' ' ∉ text := fun member =>
        absurd (List.all_eq_true.mp written ' ' member) (by decide)
      simp only [WrittenVisibility.readText, WrittenVisibility.text, WrittenVisibility.words,
        WrittenVisibility.Whole, iff_false]
      intro same
      split at same
      · rw [← Option.some.inj same] at blank
        exact free whole.number.written blank
      · rw [← Option.some.inj same] at blank
        exact free (milesText_written above below) blank

/-- What is read is what was written exactly if it is kept. -/
theorem WrittenConditions.readTaf_eq_iff (written : WrittenConditions)
    : written.readTaf = written.taf ↔ written.Kept := by
  have sky : written.sky.filterMap WrittenSky.readCover = written.sky.map WrittenSky.taf
      ↔ ∀ sky ∈ written.sky, ¬ sky.IsVertical := by
    constructor
    · intro same sky member isVertical
      cases sky with
      | clear word known => exact isVertical
      | layer amount height kind => exact isVertical
      | vertical height =>
          have inside : (⟨"VV".toList, some (height.value * 100)⟩ : TafSkyCondition)
              ∈ written.sky.map WrittenSky.taf :=
            List.mem_map.mpr ⟨.vertical height, member, rfl⟩
          rw [← same] at inside
          obtain ⟨other, -, read⟩ := List.mem_filterMap.mp inside
          cases other with
          | clear word known => cases read
          | layer amount height kind =>
              cases amount <;> simp [WrittenSky.readCover, CloudAmount.text] at read
          | vertical other => simp [WrittenSky.readCover] at read
    · intro level
      generalize written.sky = skies at level
      induction skies with
      | nil => rfl
      | cons sky skies ih =>
          rw [List.map_cons, ← ih fun other member => level other (by simp [member])]
          cases sky with
          | clear word known => rfl
          | layer amount height kind => rfl
          | vertical height => exact absurd trivial (level (.vertical height) (by simp))
  have visibility : written.visibility.bind WrittenVisibility.readText
        = written.visibility.map WrittenVisibility.text
      ↔ ∀ visibility ∈ written.visibility, visibility.Whole := by
    cases written.visibility with
    | none => simp
    | some visibility => simpa using readText_eq_iff visibility
  simp only [WrittenConditions.readTaf, WrittenConditions.taf, TafConditions.mk.injEq, true_and,
    and_true, sky, visibility]
  constructor
  · rintro ⟨visibility, sky⟩
    exact ⟨visibility, sky⟩
  · rintro ⟨visibility, sky⟩
    exact ⟨visibility, sky⟩

-----------------------------------------------------------------------------------------
-- Words in a row
-----------------------------------------------------------------------------------------

/-- Words that go on are read behind what the words before gave, by induction on these. -/
theorem itemsRead_append {given : Given} {left right : List Text} {items others : List TafItem}
    (here : itemsRead given left = .ok items)
    (later : itemsRead (items.foldl Given.add given) right = .ok others)
    : itemsRead given (left ++ right) = .ok (items ++ others) := by
  induction left generalizing given items with
  | nil =>
      obtain rfl := Except.ok.inj here
      exact later
  | cons token left ih =>
      rw [itemsRead, exceptBind_ok_iff] at here
      obtain ⟨item, read, more⟩ := here
      rw [List.cons_append, itemsRead, read, ok_bind]
      cases item with
      | none => exact ih more later
      | some item =>
          rw [exceptBind_ok_iff] at more
          obtain ⟨items', more, same⟩ := more
          obtain rfl := Except.ok.inj same
          simp only
          rw [ih more later]
          rfl

/-- Words that are each read as what they say, whatever is given, by induction on them. -/
theorem itemsRead_map {α : Type} {text : α → Text} {item : α → Option TafItem} {list : List α}
    {given : Given} (reads : ∀ a ∈ list, readItem given (text a) = .ok (item a))
    (same : ∀ a ∈ list, ∀ found ∈ item a, given.add found = given)
    : itemsRead given (list.map text) = .ok (list.filterMap item) := by
  induction list with
  | nil => rfl
  | cons a list ih =>
      have later := ih (fun b member => reads b (by simp [member]))
        fun b member => same b (by simp [member])
      rw [List.map_cons, itemsRead, reads a (by simp), ok_bind]
      cases read : item a with
      | none => simpa [read] using later
      | some found =>
          rw [List.filterMap_cons_some read]
          simp only
          rw [same a (by simp) found read, later]
          rfl

/-- A word that is not in knots is no wind and no shear. -/
theorem readItem_of_not_knots {token : Text} (other : ¬ "KT".toList <:+ token) (given : Given)
    : readItem given token
      = if !given.visibility && isTafVisibilityToken token then .ok (some (.visibility token))
        else .ok (readCover token) := by
  have noWind : parseTafWind token = .ok none := by
    rw [parseTafWind, stripSuffix, if_neg other]
    rfl
  have noShear : parseWindShear token = .ok none := by
    rw [parseWindShear]
    split
    · rfl
    · next height wind halves =>
        obtain ⟨rest, starts, halves⟩ := Option.bind_eq_some_iff.mp halves
        obtain rfl := stripPrefix_eq_some starts
        obtain ⟨rfl, -⟩ := splitOnce_eq_some halves
        split
        · rfl
        · have notEnds : stripSuffix "KT".toList wind = none := by
            rw [stripSuffix, if_neg]
            rintro ⟨front, rfl⟩
            exact other ⟨"WS".toList ++ (height ++ '/' :: front), by simp⟩
          rw [notEnds]
          split
          · next found => cases found
          · rfl
  obtain ⟨wind, visibility, shear⟩ := given
  cases wind <;> cases shear <;> simp only [readItem, noWind, noShear] <;> rfl

-----------------------------------------------------------------------------------------
-- Words on their own
-----------------------------------------------------------------------------------------

theorem not_mem_of_digits {text : Text} (digits : text.all Char.isDigit = true) {c : Char}
    (other : c.isDigit = false)
    : c ∉ text := by
  intro member
  rw [List.all_eq_true.mp digits c member] at other
  cases other

theorem WrittenSpeed.parseUnsigned_eq (speed : WrittenSpeed)
    : parseUnsigned (2 ^ 16) speed.text = some speed.value := by
  cases speed with
  | two number => exact number.parseUnsigned_eq _ (by decide) (by decide)
  | three number => exact number.parseUnsigned_eq _ (by decide) (by decide)

theorem windBehind_strength (wind : WrittenWind) (directionDegrees : Option Nat)
    (isVariable : Bool)
    : windBehind directionDegrees isVariable wind.strength
      = some ⟨directionDegrees, wind.speed.value, wind.gust.map WrittenSpeed.value, isVariable⟩ := by
  have free : 'G' ∉ wind.speed.text := not_mem_of_digits wind.speed.digits rfl
  rw [windBehind, WrittenWind.strength]
  cases wind.gust with
  | none =>
      simp only [splitOnce_eq_none free, wind.speed.parseUnsigned_eq]
      rfl
  | some gust =>
      simp only [splitOnce_append_cons gust.text free, wind.speed.parseUnsigned_eq,
        gust.parseUnsigned_eq]
      rfl

theorem length_strength (wind : WrittenWind) : 2 ≤ wind.strength.length := by
  have least (speed : WrittenSpeed) : 2 ≤ speed.text.length := by
    cases speed with
    | two number => exact number.length.ge
    | three number => exact (by decide : 2 ≤ 3).trans number.length.ge
  rw [WrittenWind.strength]
  cases wind.gust with
  | none => exact least wind.speed
  | some gust =>
      rw [List.length_append]
      exact (least wind.speed).trans (Nat.le_add_right _ _)

/-- A wind from a direction is not variable, and is cut behind its direction. -/
theorem WrittenWind.cut_direction {wind : WrittenWind} {digits : Digits 3}
    (direction : wind.direction = some digits)
    : stripPrefix "VRB".toList (digits.text ++ wind.strength) = none
      ∧ ¬ utf8Len (digits.text ++ wind.strength) < 5
      ∧ sliceTo 3 (digits.text ++ wind.strength) = .ok digits.text
      ∧ sliceFrom 3 (digits.text ++ wind.strength) = .ok wind.strength := by
  obtain ⟨first, rest, split, digit⟩ := digits.exists_first (by decide)
  have notVariable : stripPrefix "VRB".toList (digits.text ++ wind.strength) = none := by
    rw [stripPrefix, if_neg]
    rw [split]
    exact not_prefix_digit digit ⟨'V', rfl, rfl⟩ _
  have long : ¬ utf8Len (digits.text ++ wind.strength) < 5 := by
    have ascii : IsAscii (digits.text ++ wind.strength) := by
      have written := wind.written
      rw [WrittenWind.text, direction, List.all_append, Bool.and_eq_true] at written
      exact isAscii_of_reportChars written.1
    have least := length_strength wind
    rw [ascii.utf8Len_eq, List.length_append, digits.length]
    omega
  have cut := sliceTo_append digits.text wind.strength
  have behind := sliceFrom_append digits.text wind.strength
  rw [digits.utf8Len_eq] at cut behind
  exact ⟨notVariable, long, cut, behind⟩

theorem parseTafWind_text (wind : WrittenWind) : parseTafWind wind.text = .ok (some wind.taf) := by
  rw [parseTafWind, WrittenWind.text, WrittenWind.taf]
  cases direction : wind.direction with
  | none =>
      simp only [stripSuffix_append, stripPrefix_append, windBehind_strength]
      rfl
  | some digits =>
      obtain ⟨notVariable, long, cut, behind⟩ := wind.cut_direction direction
      simp only [stripSuffix_append, notVariable, if_neg long, cut, behind, ok_bind,
        digits.digits, if_true,
        digits.parseUnsigned_eq (2 ^ 16) (by decide) (by decide), Option.bind_some,
        windBehind_strength]
      rfl

theorem parseWindShear_text (shear : WrittenShear)
    : parseWindShear shear.text = .ok (some shear.taf) := by
  have halves : (stripPrefix "WS".toList shear.text).bind (splitOnce '/')
      = some (shear.height.text, shear.direction.text ++ shear.speed.text ++ "KT".toList) := by
    rw [WrittenShear.text, List.append_assoc, stripPrefix_append, Option.bind_some,
      splitOnce_append_cons _ (shear.height.not_mem rfl)]
  have cut := sliceTo_append shear.direction.text shear.speed.text
  have behind := sliceFrom_append shear.direction.text shear.speed.text
  rw [shear.direction.utf8Len_eq] at cut behind
  have small : shear.height.value * 100 ≤ 2 ^ 32 - 1 := by
    have least := shear.height.value_lt
    omega
  rw [parseWindShear, halves]
  simp only [shear.height.utf8Len_eq, stripSuffix_append, utf8Len_append,
    shear.direction.utf8Len_eq, shear.speed.utf8Len_eq, cut, behind, ok_bind,
    shear.height.parseUnsigned_eq (2 ^ 32) (by decide) (by decide),
    shear.direction.parseUnsigned_eq (2 ^ 16) (by decide) (by decide),
    shear.speed.parseUnsigned_eq (2 ^ 16) (by decide) (by decide), ne_eq, not_true,
    if_false, Option.map_some]
  rw [Nat.min_eq_left small]
  rfl

theorem readItem_wind (wind : WrittenWind) {given : Given} (lacks : given.wind = false)
    : readItem given wind.text = .ok (some (.wind wind.taf)) := by
  obtain ⟨_, visibility, shear⟩ := given
  obtain rfl : _ = false := lacks
  simp only [readItem, parseTafWind_text]
  rfl

theorem readItem_shear (shear : WrittenShear) {given : Given} (lacks : given.shear = false)
    : readItem given shear.text = .ok (some (.shear shear.taf)) := by
  have knots : "KT".toList <:+ shear.text := by
    refine ⟨"WS".toList ++ shear.height.text ++ '/' :: (shear.direction.text ++ shear.speed.text),
      ?_⟩
    simp [WrittenShear.text]
  have noVisibility := not_isTafVisibilityToken knots
  have noWind : parseTafWind shear.text = .ok none := by
    have isShear : isWindShearToken shear.text = true := by
      simp [isWindShearToken, parseWindShear_text]
    have ascii : IsAscii shear.text := by
      refine isAscii_of_reportChars ?_
      have literals : "WS".toList.all isReportChar = true ∧ isReportChar '/' = true
          ∧ "KT".toList.all isReportChar = true := by
        decide
      simp only [WrittenShear.text, List.all_append, List.all_cons, Digits.written, literals,
        Bool.and_self]
    obtain ⟨found, parsed⟩ := returns_parseTafWind ascii
    cases found with
    | none => exact parsed
    | some wind =>
        have isWind : isTafWindToken shear.text = true := by simp [isTafWindToken, parsed]
        rw [(not_others_of_isTafWindToken isWind).2] at isShear
        cases isShear
  obtain ⟨wind, visibility, _⟩ := given
  obtain rfl : _ = false := lacks
  cases wind <;>
    simp only [readItem, noWind, noVisibility, Bool.and_false, parseWindShear_text] <;> rfl

-----------------------------------------------------------------------------------------
-- Visibilities
-----------------------------------------------------------------------------------------

theorem not_knots_of_miles {token : Text} (miles : "SM".toList <:+ token)
    : ¬ "KT".toList <:+ token := fun knots =>
  absurd ((List.suffix_of_suffix_length_le knots miles (by decide)).eq_of_length (by decide))
    (by decide)

theorem not_suffix_of_digits {token : Text} (digits : token.all Char.isDigit = true)
    {suffix : Text} (shown : ∃ c ∈ suffix, c.isDigit = false)
    : ¬ suffix <:+ token := by
  rintro ⟨front, rfl⟩
  obtain ⟨c, member, letter⟩ := shown
  rw [List.all_eq_true.mp digits c (by simp [member])] at letter
  cases letter

theorem parseTafSkyCondition_spec {token : Text} {sky : TafSkyCondition}
    (parsed : parseTafSkyCondition token = some sky)
    : ∃ cover ∈ tafCovers, cover <+: token := by
  rw [parseTafSkyCondition, Option.bind_eq_bind, Option.bind_eq_some_iff] at parsed
  obtain ⟨cover, front, parsed⟩ := parsed
  obtain ⟨back, rfl, -⟩ := getSlice_zero_eq_some front
  by_cases known : cover ∈ tafCovers
  · exact ⟨cover, known, List.prefix_append cover back⟩
  · simp [guard, if_neg known] at parsed

/-- What starts with a digit is no cover and no weather. -/
theorem readCover_of_digit {token : Text} (starts : ∃ c ∈ token.head?, c.isDigit = true)
    (plain : '+' ∉ token ∧ '-' ∉ token)
    : readCover token = none := by
  obtain ⟨first, starts, digit⟩ := starts
  obtain ⟨rest, rfl⟩ := List.head?_eq_some_iff.mp starts
  have noCover : parseTafSkyCondition (first :: rest) = none := by
    cases parsed : parseTafSkyCondition (first :: rest) with
    | none => rfl
    | some sky =>
        obtain ⟨cover, known, front⟩ := parseTafSkyCondition_spec parsed
        have capital : ∀ cover ∈ tafCovers, (cover.head?.any fun c => !c.isDigit) = true := by
          decide
        obtain ⟨c, starts, letter⟩ := (Option.any_eq_true _ _).mp (capital cover known)
        exact absurd front (not_prefix_digit digit ⟨c, starts, by simpa using letter⟩ rest)
  have notUpper : first.isUpper = false := not_isUpper_of_isDigit digit
  have noWeather : isTafWeatherToken (first :: rest) = false := by
    simp [isTafWeatherToken, trimMatches_eq_self plain.1, trimMatches_eq_self plain.2, notUpper]
  rw [readCover, noCover]
  simp only [noWeather]
  rfl

theorem readItem_whole {token : Text} (digits : token.all Char.isDigit = true) (given : Given)
    (lacks : given.visibility = false) (some : token ≠ [])
    : readItem given token
      = .ok (if token = "9999".toList then .some (.visibility token) else none) := by
  have notKnots := @not_suffix_of_digits token digits "KT".toList ⟨'K', by simp, rfl⟩
  have notMiles := @not_suffix_of_digits token digits "SM".toList ⟨'S', by simp, rfl⟩
  have notCavok : token ≠ "CAVOK".toList := by
    rintro rfl
    exact absurd digits (by decide)
  rw [readItem_of_not_knots notKnots, lacks]
  by_cases far : token = "9999".toList
  · subst far
    rfl
  · have other : isTafVisibilityToken token = false := by
      simp only [isTafVisibilityToken, Bool.or_eq_false_iff, Bool.and_eq_false_iff,
        decide_eq_false_iff_not]
      exact ⟨⟨⟨notCavok, far⟩, notMiles⟩, .inr notMiles⟩
    have plain : '+' ∉ token ∧ '-' ∉ token :=
      ⟨not_mem_of_digits digits rfl, not_mem_of_digits digits rfl⟩
    have starts : ∃ c ∈ token.head?, c.isDigit = true := by
      obtain ⟨first, rest, rfl⟩ := List.exists_cons_of_ne_nil some
      exact ⟨first, rfl, List.all_eq_true.mp digits first (by simp)⟩
    rw [other, if_neg (by simp), if_neg far, readCover_of_digit starts plain]

theorem readItem_miles {token : Text} (miles : "SM".toList <:+ token) (given : Given)
    (lacks : given.visibility = false)
    : readItem given token = .ok (some (.visibility token)) := by
  have isVisibility : isTafVisibilityToken token = true := by
    simp only [isTafVisibilityToken, decide_eq_true miles, Bool.or_true, Bool.true_or]
  rw [readItem_of_not_knots (not_knots_of_miles miles), lacks, isVisibility]
  rfl

/-- What is read of a visibility. -/
def WrittenVisibility.items (visibility : WrittenVisibility) : List TafItem :=
  (visibility.readText.map TafItem.visibility).toList

theorem itemsRead_visibility (visibility : WrittenVisibility) {given : Given}
    (lacks : given.visibility = false)
    : itemsRead given visibility.words = .ok visibility.items := by
  have single {word : Text} {item : Option TafItem} (read : readItem given word = .ok item)
      : itemsRead given [word] = .ok item.toList := by
    rw [itemsRead, read]
    cases item <;> rfl
  cases visibility with
  | cavok =>
      refine single ?_
      rw [readItem_of_not_knots (by decide), lacks]
      rfl
  | metres distance =>
      refine (single (readItem_whole distance.digits given lacks (distance.ne_nil (by decide)))).trans
        ?_
      simp only [WrittenVisibility.items, WrittenVisibility.readText]
      split <;> rfl
  | miles beyond whole => exact single (readItem_miles (List.suffix_append _ _) given lacks)
  | fraction above below => exact single (readItem_miles (List.suffix_append _ _) given lacks)
  | mixed whole above below =>
      have first := readItem_whole whole.number.digits given lacks (whole.number.ne_nil whole.some)
      have miles : "SM".toList <:+ milesText above below := List.suffix_append _ _
      simp only [WrittenVisibility.items, WrittenVisibility.readText]
      rw [WrittenVisibility.words, itemsRead, Numeral.text, first, ok_bind]
      by_cases far : whole.number.text = "9999".toList
      · have starts : ∃ c ∈ (milesText above below).head?, c.isDigit = true := by
          obtain ⟨c, rest, split, digit⟩ := above.number.exists_first above.some
          exact ⟨c, by simp [milesText, Numeral.text, split], digit⟩
        have plain : '+' ∉ milesText above below ∧ '-' ∉ milesText above below := by
          simp [milesText, Numeral.text, above.number.not_mem, below.number.not_mem]
        have nothing : readItem (given.add (.visibility whole.number.text))
            (milesText above below) = .ok none := by
          rw [readItem_of_not_knots (not_knots_of_miles miles), readCover_of_digit starts plain]
          rfl
        have alone : itemsRead (given.add (.visibility whole.number.text))
            [milesText above below] = .ok [] := by
          rw [itemsRead, nothing]
          rfl
        rw [if_pos far, if_pos far]
        simp only
        rw [alone]
        rfl
      · rw [if_neg far, if_neg far]
        exact single (readItem_miles miles given lacks)

-----------------------------------------------------------------------------------------
-- Weather and clouds
-----------------------------------------------------------------------------------------

theorem WrittenWeather.not_cover (weather : WrittenWeather)
    : parseTafSkyCondition weather.text = none := by
  cases parsed : parseTafSkyCondition weather.text with
  | none => rfl
  | some sky =>
      obtain ⟨cover, known, front⟩ := parseTafSkyCondition_spec parsed
      have other : ∀ cover ∈ tafCovers,
          2 ≤ cover.length ∧ (∀ c ∈ cover.head?, c ≠ '+' ∧ c ≠ '-') := by
        decide
      have unknown : ∀ cover ∈ tafCovers, ∀ code : WeatherCode, code.text ≠ cover.take 2 := by
        intro cover member code
        revert cover
        cases code <;> decide
      obtain ⟨long, letter⟩ := other cover known
      exact absurd front (weather.not_start long (unknown cover known) letter)

theorem WrittenWeather.not_visibility (weather : WrittenWeather)
    : isTafVisibilityToken weather.text = false := by
  have notMiles : ¬ "SM".toList <:+ weather.text :=
    weather.not_suffix rfl fun code => by cases code <;> decide
  have notCavok : weather.text ≠ "CAVOK".toList := fun same =>
    @WrittenWeather.not_start weather "CAVOK".toList (by decide)
      (fun code => by cases code <;> decide) (by decide) (same ▸ List.prefix_rfl)
  have notFar : weather.text ≠ "9999".toList := fun same =>
    @WrittenWeather.not_start weather "9999".toList (by decide)
      (fun code => by cases code <;> decide) (by decide) (same ▸ List.prefix_rfl)
  simp only [isTafVisibilityToken, Bool.or_eq_false_iff, Bool.and_eq_false_iff,
    decide_eq_false_iff_not]
  exact ⟨⟨⟨notCavok, notFar⟩, notMiles⟩, .inr notMiles⟩

/-- The signs are trimmed. -/
theorem WrittenWeather.trimmed (weather : WrittenWeather)
    : trimMatches '-' (trimMatches '+' weather.text) = weather.letters := by
  have free {c : Char} (other : c.isUpper = false) : c ∉ weather.letters := by
    intro member
    rw [List.all_eq_true.mp weather.upper c member] at other
    cases other
  have plus : '+' ∉ weather.letters := free rfl
  have minus : '-' ∉ weather.letters := free rfl
  rw [WrittenWeather.text]
  cases weather.intensity with
  | light =>
      have inFront : '+' ∉ '-' :: weather.letters := by simpa using plus
      exact (congrArg _ (trimMatches_eq_self inFront)).trans (trimMatches_cons minus)
  | moderate => exact (congrArg _ (trimMatches_eq_self plus)).trans (trimMatches_eq_self minus)
  | heavy => exact (congrArg _ (trimMatches_cons plus)).trans (trimMatches_eq_self minus)

theorem WrittenWeather.length_letters (weather : WrittenWeather)
    : weather.letters.length = 2 * weather.codes.length := by
  rw [WrittenWeather.letters]
  induction weather.codes with
  | nil => rfl
  | cons code codes ih =>
      rw [List.flatMap_cons, List.length_append, code.length_text, ih, List.length_cons]
      omega

theorem WrittenWeather.ne_nil (weather : WrittenWeather) : weather.text ≠ [] := by
  intro empty
  have size := weather.length_letters
  have some : weather.codes.length ≠ 0 := by simpa using weather.some
  have none : weather.letters = [] := (List.append_eq_nil_iff.mp empty).2
  rw [none, List.length_nil] at size
  omega

theorem WrittenWeather.isTafWeather (weather : WrittenWeather)
    : isTafWeatherToken weather.text = true := by
  have some : weather.codes.length ≠ 0 := by simpa using weather.some
  have few := weather.few
  have size := weather.length_letters
  have ascii : IsAscii weather.letters := fun c member =>
    utf8Size_of_isAlphanum (isAlphanum_of_isUpper (List.all_eq_true.mp weather.upper c member))
  have notQnh : ¬ "QNH".toList <+: weather.letters :=
    { weather with intensity := .moderate }.not_start (by decide)
      (fun code => by cases code <;> decide) (by decide)
  have unlisted : weather.letters ∉ ["RMK", "AMD", "COR", "TX", "TN", "QNH"].map String.toList :=
    weather.letters_not_mem (by decide) fun literal member code => by
      revert literal
      cases code <;> decide
  simp only [isTafWeatherToken, weather.trimmed, ascii.utf8Len_eq, size, Bool.and_eq_true,
    decide_eq_true_eq, Bool.not_eq_true', decide_eq_false_iff_not]
  exact ⟨⟨⟨⟨by omega, by omega⟩, weather.upper⟩, unlisted⟩, notQnh⟩

theorem readItem_weather (weather : TafWeather) (given : Given)
    : readItem given weather.text = .ok (some (.weather weather.text)) := by
  cases weather with
  | group weather =>
      have notKnots : ¬ "KT".toList <:+ weather.text :=
        weather.not_suffix rfl fun code => by cases code <;> decide
      simp only [TafWeather.text]
      rw [readItem_of_not_knots notKnots, weather.not_visibility, readCover, weather.not_cover]
      simp only [weather.isTafWeather, Bool.and_false]
      rfl
  | noneSignificant =>
      have word : TafWeather.noneSignificant.text = "NSW".toList := rfl
      have notVisible : isTafVisibilityToken "NSW".toList = false := by decide
      have cover : readCover "NSW".toList = some (.weather "NSW".toList) := by decide +kernel
      rw [word, readItem_of_not_knots (by decide), notVisible, cover]
      simp

theorem not_suffix_of_last {text suffix : Text} {c d : Char} (last : text.getLast? = some c)
    (ends : suffix.getLast? = some d) (other : c ≠ d)
    : ¬ suffix <:+ text := by
  rintro ⟨front, rfl⟩
  rw [List.getLast?_append, ends] at last
  exact other (Option.some.inj last).symm

theorem parseTafSkyCondition_layer (amount : CloudAmount) (height : Digits 3) (behind : Text)
    : parseTafSkyCondition (amount.text ++ height.text ++ behind)
      = some ⟨amount.text, some (height.value * 100)⟩ := by
  have size : utf8Len amount.text = 3 := by cases amount <;> decide
  have known : amount.text ∈ tafCovers := by cases amount <;> decide
  have cover := getSlice_append [] amount.text (height.text ++ behind)
  have digits := getSlice_append amount.text height.text behind
  rw [utf8Len_append, size, height.utf8Len_eq] at digits
  rw [List.nil_append, size, ← List.append_assoc] at cover
  have zero : utf8Len [] = 0 := rfl
  rw [zero] at cover
  have heights : coverHeight (amount.text ++ height.text ++ behind) = some (height.value * 100) := by
    rw [coverHeight, digits, Option.filter_some, if_pos height.digits, Option.bind_some,
      height.parseUnsigned_eq (2 ^ 32) (by decide) (by decide)]
    rfl
  rw [parseTafSkyCondition, cover, Option.bind_eq_bind, Option.bind_some, heights]
  simp [guard, known]

/-- A layer ends with a digit, or as its kind does. -/
theorem getLast?_layer (amount : CloudAmount) (height : Digits 3) (kind : Option CloudKind)
    : ∃ c, (amount.text ++ height.text ++ (kind.map CloudKind.text).getD []).getLast? = some c
        ∧ c ≠ 'T' ∧ c ≠ 'M' := by
  rcases kind with _ | kind
  · cases last : height.text.getLast? with
    | none => exact absurd (List.getLast?_eq_none_iff.mp last) (height.ne_nil (by decide))
    | some c =>
        refine ⟨c, by simp [last], ?_, ?_⟩
        · rintro rfl
          exact height.not_mem (c := 'T') rfl (List.mem_of_getLast? last)
        · rintro rfl
          exact height.not_mem (c := 'M') rfl (List.mem_of_getLast? last)
  · cases kind with
    | cumulonimbus => exact ⟨'B', by simp [CloudKind.text], by decide, by decide⟩
    | towering => exact ⟨'U', by simp [CloudKind.text], by decide, by decide⟩

/-- A vertical visibility is a cover only below ten thousand feet, and then without its height. -/
theorem readCover_vertical (height : Digits 3)
    : readCover ("VV".toList ++ height.text)
      = (if height.text.head? = some '0' then some ⟨"VV0".toList, none⟩ else none).map .sky := by
  obtain ⟨first, second, third, split⟩ := List.length_eq_three.mp height.length
  have isDigit {c : Char} (member : c ∈ height.text) : c.isDigit = true :=
    height.isDigit_of_mem member
  have digit : first.isDigit = true := isDigit (by simp [split])
  have ascii : ∀ c ∈ ['V', 'V', first, second, third], c.utf8Size = 1 := by
    intro c member
    by_cases letter : c = 'V'
    · subst letter
      rfl
    · exact utf8Size_of_isDigit (isDigit (by simpa [split, letter] using member))
  have cover : getSlice 0 3 ['V', 'V', first, second, third] = some ['V', 'V', first] := by
    have front := getSlice_append [] ['V', 'V', first] [second, third]
    have size : utf8Len (['V', 'V', first] : Text) = 3 :=
      IsAscii.utf8Len_eq fun c member => ascii c (by
        simp only [List.mem_cons, List.not_mem_nil, or_false] at member ⊢
        tauto)
    have zero : utf8Len [] = 0 := rfl
    rwa [List.nil_append, size, zero] at front
  rw [split]
  change readCover ['V', 'V', first, second, third] = _
  by_cases low : first = '0'
  · subst low
    have noHeight : coverHeight ['V', 'V', '0', second, third] = none := by
      have size : utf8Len ['V', 'V', '0', second, third] < 6 := by
        rw [IsAscii.utf8Len_eq ascii]
        exact Nat.lt_succ_self 5
      rw [coverHeight, getSlice_eq_none size]
      rfl
    have known : (['V', 'V', '0'] : Text) ∈ tafCovers := by decide
    have parsed : parseTafSkyCondition ['V', 'V', '0', second, third] = some ⟨"VV0".toList, none⟩ := by
      rw [parseTafSkyCondition, cover, noHeight]
      simp only [Option.bind_eq_bind, Option.bind_some, guard, if_pos known]
      rfl
    rw [readCover, parsed]
    rfl
  · have unknown : (['V', 'V', first] : Text) ∉ tafCovers := by
      intro member
      have known : ∀ cover ∈ tafCovers, cover.take 2 = ['V', 'V'] → cover = ['V', 'V', '0'] := by
        decide
      obtain rfl : first = '0' := by simpa using known _ member rfl
      exact low rfl
    have noCover : parseTafSkyCondition ['V', 'V', first, second, third] = none := by
      rw [parseTafSkyCondition, cover]
      simp only [Option.bind_eq_bind, Option.bind_some, guard, if_neg unknown]
      rfl
    have free {c : Char} (other : c.isDigit = false) (letter : c ≠ 'V')
        : c ∉ ['V', 'V', first, second, third] := by
      intro member
      have inside : c ∈ height.text := by simpa [split, letter] using member
      rw [isDigit inside] at other
      cases other
    have noWeather : isTafWeatherToken ['V', 'V', first, second, third] = false := by
      have notUpper : first.isUpper = false := not_isUpper_of_isDigit digit
      simp only [isTafWeatherToken, trimMatches_eq_self (@free '+' rfl (by decide)),
        trimMatches_eq_self (@free '-' rfl (by decide))]
      simp [notUpper]
    rw [readCover, noCover]
    simp [noWeather, low]

/-- What is read of a part of the sky. -/
theorem readItem_sky (sky : WrittenSky tafClear) (given : Given)
    : readItem given sky.text = .ok (sky.readCover.map .sky) := by
  cases sky with
  | clear word known =>
      have words : word = "SKC".toList ∨ word = "NSC".toList := by simpa [tafClear] using known
      have notKnots : ¬ "KT".toList <:+ word := by rcases words with rfl | rfl <;> decide
      have notVisible : isTafVisibilityToken word = false := by
        rcases words with rfl | rfl <;> decide
      have cover : readCover word = some (.sky ⟨word, none⟩) := by
        rcases words with rfl | rfl <;> decide +kernel
      simp only [WrittenSky.text]
      rw [readItem_of_not_knots notKnots, notVisible, cover]
      simp [WrittenSky.readCover]
  | layer amount height kind =>
      obtain ⟨c, last, notT, notM⟩ := getLast?_layer amount height kind
      have notMiles := @not_suffix_of_last _ "SM".toList _ _ last rfl notM
      have notVisible : isTafVisibilityToken
          (amount.text ++ height.text ++ (kind.map CloudKind.text).getD []) = false := by
        have other {literal : Text} (differs : ∀ amount : CloudAmount,
            amount.text.head? ≠ literal.head?)
            : amount.text ++ height.text ++ (kind.map CloudKind.text).getD [] ≠ literal := by
          rintro rfl
          refine differs amount ?_
          cases amount <;> rfl
        simp only [isTafVisibilityToken, Bool.or_eq_false_iff, Bool.and_eq_false_iff,
          decide_eq_false_iff_not]
        exact ⟨⟨⟨other fun amount => by cases amount <;> decide,
          other fun amount => by cases amount <;> decide⟩, notMiles⟩, .inr notMiles⟩
      simp only [WrittenSky.text]
      rw [readItem_of_not_knots (not_suffix_of_last last rfl notT), notVisible, readCover,
        parseTafSkyCondition_layer]
      simp [WrittenSky.readCover]
  | vertical height =>
      have ends {suffix : Text} (shown : ∃ d ∈ suffix.getLast?, d.isDigit = false)
          : ¬ suffix <:+ "VV".toList ++ height.text := by
        obtain ⟨d, last, letter⟩ := shown
        cases here : height.text.getLast? with
        | none => exact absurd (List.getLast?_eq_none_iff.mp here) (height.ne_nil (by decide))
        | some c =>
            have whole : ("VV".toList ++ height.text).getLast? = some c := by
              rw [List.getLast?_append, here]
              rfl
            refine not_suffix_of_last whole last ?_
            rintro rfl
            exact height.not_mem letter (List.mem_of_getLast? here)
      have notMiles := @ends "SM".toList ⟨'M', rfl, rfl⟩
      have notVisible : isTafVisibilityToken ("VV".toList ++ height.text) = false := by
        simp only [isTafVisibilityToken, Bool.or_eq_false_iff, Bool.and_eq_false_iff,
          decide_eq_false_iff_not]
        have other {literal : Text} (differs : literal.head? ≠ some 'V')
            : "VV".toList ++ height.text ≠ literal := by
          rintro rfl
          exact differs rfl
        exact ⟨⟨⟨other (by decide), other (by decide)⟩, notMiles⟩, .inr notMiles⟩
      simp only [WrittenSky.text]
      rw [readItem_of_not_knots (@ends "KT".toList ⟨'T', rfl, rfl⟩), notVisible,
        readCover_vertical]
      simp [WrittenSky.readCover]

-----------------------------------------------------------------------------------------
-- Conditions
-----------------------------------------------------------------------------------------

theorem foldl_add_weather (weather : List Text) (conditions : TafConditions)
    : (weather.map TafItem.weather).foldl TafConditions.add conditions
      = { conditions with weather := conditions.weather ++ weather } := by
  induction weather generalizing conditions with
  | nil => simp
  | cons word weather ih => simp [ih, TafConditions.add]

theorem foldl_add_sky (sky : List TafSkyCondition) (conditions : TafConditions)
    : (sky.map TafItem.sky).foldl TafConditions.add conditions
      = { conditions with skyConditions := conditions.skyConditions ++ sky } := by
  induction sky generalizing conditions with
  | nil => simp
  | cons part sky ih => simp [ih, TafConditions.add]

theorem shear_foldl_add {items : List TafItem} (free : ∀ item ∈ items, ∀ shear, item ≠ .shear shear)
    (given : Given)
    : (items.foldl Given.add given).shear = given.shear := by
  induction items generalizing given with
  | nil => rfl
  | cons item items ih =>
      rw [List.foldl_cons, ih fun other member => free other (by simp [member])]
      cases item with
      | shear shear => exact absurd rfl (free (.shear shear) (by simp) shear)
      | wind wind => rfl
      | visibility token => rfl
      | sky sky => rfl
      | weather token => rfl

/-- What is read of conditions, in the order of their words. -/
def WrittenConditions.items (written : WrittenConditions) : List TafItem :=
  (written.wind.map fun wind => TafItem.wind wind.taf).toList
  ++ (written.visibility.map WrittenVisibility.items).getD []
  ++ (written.weather.map TafWeather.text).map .weather
  ++ (written.sky.filterMap WrittenSky.readCover).map .sky
  ++ (written.shear.map fun shear => TafItem.shear shear.taf).toList

theorem itemsRead_words (written : WrittenConditions)
    : itemsRead ⟨false, false, false⟩ written.words = .ok written.items := by
  obtain ⟨wind, visibility, weather, sky, shear⟩ := written
  have single {given : Given} {word : Text} {item : TafItem}
      (read : readItem given word = .ok (some item))
      : itemsRead given [word] = .ok [item] := by
    rw [itemsRead, read]
    rfl
  have readWind : itemsRead ⟨false, false, false⟩ (wind.map WrittenWind.text).toList
      = .ok (wind.map fun wind => TafItem.wind wind.taf).toList := by
    cases wind with
    | none => rfl
    | some wind => exact single (readItem_wind wind rfl)
  have readVisibility (given : Given) (lacks : given.visibility = false)
      : itemsRead given ((visibility.map WrittenVisibility.words).getD [])
        = .ok ((visibility.map WrittenVisibility.items).getD []) := by
    cases visibility with
    | none => rfl
    | some visibility => exact itemsRead_visibility visibility lacks
  have readWeather (given : Given)
      : itemsRead given (weather.map TafWeather.text)
        = .ok ((weather.map TafWeather.text).map .weather) := by
    have read := @itemsRead_map _ TafWeather.text (fun part => some (.weather part.text)) weather
      given (fun part _ => readItem_weather part given) (by
        rintro part - found same
        obtain rfl := Option.some.inj same
        rfl)
    rw [List.filterMap_eq_map'] at read
    rw [List.map_map]
    exact read
  have readSky (given : Given)
      : itemsRead given (sky.map WrittenSky.text)
        = .ok ((sky.filterMap WrittenSky.readCover).map .sky) := by
    have read := @itemsRead_map _ WrittenSky.text (fun part => part.readCover.map TafItem.sky) sky
      given (fun part _ => readItem_sky part given) (by
        rintro part - found same
        obtain ⟨cover, -, rfl⟩ := Option.map_eq_some_iff.mp same
        rfl)
    rwa [List.map_filterMap]
  have readShear (given : Given) (lacks : given.shear = false)
      : itemsRead given (shear.map WrittenShear.text).toList
        = .ok (shear.map fun shear => TafItem.shear shear.taf).toList := by
    cases shear with
    | none => rfl
    | some shear => exact single (readItem_shear shear lacks)
  have lacksVisibility
      : ((wind.map fun wind => TafItem.wind wind.taf).toList.foldl Given.add
          ⟨false, false, false⟩).visibility = false := by
    cases wind <;> rfl
  refine itemsRead_append (itemsRead_append (itemsRead_append (itemsRead_append readWind
    (readVisibility _ lacksVisibility)) (readWeather _)) (readSky _)) (readShear _ ?_)
  refine shear_foldl_add ?_ _
  intro item member other same
  subst same
  simp only [List.mem_append, Option.mem_toList, Option.map_eq_some_iff, List.mem_map] at member
  rcases member with ((⟨_, -, same⟩ | member) | ⟨_, -, same⟩) | ⟨_, -, same⟩
  · cases same
  · cases visibility with
    | none => cases member
    | some visibility => simp [WrittenVisibility.items] at member
  · cases same
  · cases same

/-- The words of conditions are read as the conditions that are read of them. -/
theorem parseConditions_words (written : WrittenConditions)
    : parseConditions written.words = .ok written.readTaf := by
  have folded := foldlM_addTafToken written.words {}
  have nothing : ({} : TafConditions).given = ⟨false, false, false⟩ := rfl
  rw [nothing, itemsRead_words] at folded
  refine folded.trans (congrArg Except.ok ?_)
  obtain ⟨wind, visibility, weather, sky, shear⟩ := written
  have visibilities (conditions : TafConditions) (lacks : conditions.visibility = none)
      : ((visibility.map WrittenVisibility.items).getD []).foldl TafConditions.add conditions
        = { conditions with visibility := visibility.bind WrittenVisibility.readText } := by
    obtain ⟨_, _, _, _, _⟩ := conditions
    obtain rfl : _ = none := lacks
    cases visibility with
    | none => rfl
    | some visibility =>
        simp only [Option.map_some, Option.getD_some, WrittenVisibility.items, Option.bind_some]
        cases visibility.readText <;> rfl
  have lacks : ((wind.map fun wind => TafItem.wind wind.taf).toList.foldl TafConditions.add
      {}).visibility = none := by
    cases wind <;> rfl
  simp only [WrittenConditions.items, List.foldl_append, foldl_add_weather, foldl_add_sky,
    visibilities _ lacks]
  cases wind <;> cases shear <;> simp [WrittenConditions.readTaf, TafConditions.add]

-----------------------------------------------------------------------------------------
-- Reports
-----------------------------------------------------------------------------------------

/-- A change with its conditions. -/
structure WrittenChange where
  indicator : TafIndicator
  conditions : WrittenConditions
  deriving Repr

/-- A forecast with its conditions and changes. -/
structure WrittenTaf where
  heading : TafHeading
  station : Text
  issueTime : Text
  validity : TafValidity
  conditions : WrittenConditions
  changes : List WrittenChange
  isStation : isStationToken station = true
  isIssueTime : isIssueTimeToken issueTime = true

def WrittenChange.change (written : WrittenChange) : TafChange :=
  ⟨written.indicator, written.conditions.words⟩

def WrittenTaf.words (written : WrittenTaf) : List Text :=
  written.heading.words
  ++ written.station :: written.issueTime :: written.validity.text
    :: (written.conditions.words
      ++ (written.changes.map WrittenChange.change).flatMap TafChange.words)

/-- A group that says what a change says: its kind, its validity, its probability. A likelihood
in front of a temporary change may show as either kind.
-/
def TafIndicator.SaidBy (group : TafGroupReading) : TafIndicator → Prop
  | .fm start =>
      group.changeKind = .fm ∧ group.validFrom = some (start.text.take 4)
      ∧ group.validTo = none ∧ group.probabilityPercent = none
  | .becmg validity =>
      group.changeKind = .becmg ∧ group.validFrom = some validity.validFrom.text
      ∧ group.validTo = some validity.validTo.text ∧ group.probabilityPercent = none
  | .tempo validity =>
      group.changeKind = .tempo ∧ group.validFrom = some validity.validFrom.text
      ∧ group.validTo = some validity.validTo.text ∧ group.probabilityPercent = none
  | .prob likelihood validity =>
      group.changeKind = .prob ∧ group.validFrom = some validity.validFrom.text
      ∧ group.validTo = some validity.validTo.text
      ∧ group.probabilityPercent = some likelihood.percent
  | .probTempo likelihood validity =>
      (group.changeKind = .prob ∨ group.changeKind = .tempo)
      ∧ group.validFrom = some validity.validFrom.text
      ∧ group.validTo = some validity.validTo.text
      ∧ group.probabilityPercent = some likelihood.percent

/-- The change is kept as the group. -/
def WrittenChange.KeptAs (written : WrittenChange) (group : TafGroupReading) : Prop :=
  written.indicator.SaidBy group ∧ group.conditions = written.conditions.taf

/-- The forecast is read, with one group for each change in their order. -/
def WrittenTaf.ReadFrom (written : WrittenTaf) (text : Text) : Prop :=
  ∃ reading, readTaf text = .ok (some reading)
    ∧ List.Forall₂ WrittenChange.KeptAs written.changes reading.groups

/-- A change that does not start with a likelihood of a temporary one, with conditions that are
kept.
-/
structure WrittenChange.Kept (written : WrittenChange) : Prop where
  single : ∀ likelihood validity, written.indicator ≠ .probTempo likelihood validity
  conditions : written.conditions.Kept

/-- The group that is read of a change. -/
def WrittenChange.group (written : WrittenChange) : TafGroupReading :=
  groupReading (written.indicator.groupHeader []) written.conditions.readTaf

theorem keptAs_group_iff (written : WrittenChange)
    : written.KeptAs written.group ↔ written.Kept := by
  have conditions : written.group.conditions = written.conditions.taf ↔ written.conditions.Kept :=
    written.conditions.readTaf_eq_iff
  have said : written.indicator.SaidBy written.group
      ↔ ∀ likelihood validity, written.indicator ≠ .probTempo likelihood validity := by
    obtain ⟨indicator, conditions⟩ := written
    cases indicator <;>
      simp [TafIndicator.SaidBy, WrittenChange.group, TafIndicator.groupHeader, groupReading]
  rw [WrittenChange.KeptAs, said, conditions]
  exact ⟨fun ⟨single, conditions⟩ => ⟨single, conditions⟩,
    fun ⟨single, conditions⟩ => ⟨single, conditions⟩⟩

-----------------------------------------------------------------------------------------
-- Words that are no markers
-----------------------------------------------------------------------------------------

theorem isGroupMarker_eq_false {word : Text} (notFm : ¬ "FM".toList <+: word)
    (notTempo : ¬ "TE".toList <+: word) (notBecmg : ¬ "BE".toList <+: word)
    (notThirty : ¬ "PROB30".toList <+: word) (notForty : ¬ "PROB40".toList <+: word)
    : isGroupMarker word = false := by
  simp only [isGroupMarker, Bool.or_eq_false_iff, decide_eq_false_iff_not]
  refine ⟨⟨⟨⟨notFm, ?_⟩, ?_⟩, notThirty⟩, notForty⟩
  · rintro rfl
    exact notTempo (by decide)
  · rintro rfl
    exact notBecmg (by decide)

theorem isGroupMarker_of_first {first : Char} (other : first ∉ "FTBP".toList) (rest : Text)
    : isGroupMarker (first :: rest) = false := by
  have differs {literal : Text} (starts : ∃ c ∈ literal.head?, c ∈ "FTBP".toList)
      : ¬ literal <+: first :: rest := by
    rintro ⟨behind, same⟩
    obtain ⟨c, starts, known⟩ := starts
    obtain ⟨more, rfl⟩ := List.head?_eq_some_iff.mp starts
    cases same
    exact other known
  exact isGroupMarker_eq_false (differs ⟨'F', rfl, by decide⟩) (differs ⟨'T', rfl, by decide⟩)
    (differs ⟨'B', rfl, by decide⟩) (differs ⟨'P', rfl, by decide⟩) (differs ⟨'P', rfl, by decide⟩)

theorem isGroupMarker_of_digit {word : Text} (starts : ∃ c ∈ word.head?, c.isDigit = true)
    : isGroupMarker word = false := by
  obtain ⟨first, starts, digit⟩ := starts
  obtain ⟨rest, rfl⟩ := List.head?_eq_some_iff.mp starts
  refine isGroupMarker_of_first (fun known => ?_) rest
  have letters : ∀ c ∈ "FTBP".toList, c.isDigit = false := by decide
  rw [letters first known] at digit
  cases digit

theorem Digits.starts {count : Nat} (number : Digits count) (some : count ≠ 0) (rest : Text)
    : ∃ c ∈ (number.text ++ rest).head?, c.isDigit = true := by
  obtain ⟨first, more, split, digit⟩ := number.exists_first some
  exact ⟨first, by simp [split], digit⟩

theorem WrittenWind.unmarked (wind : WrittenWind) : isGroupMarker wind.text = false := by
  rw [WrittenWind.text]
  cases wind.direction with
  | none => exact isGroupMarker_of_first (by decide) _
  | some direction =>
      simp only [List.append_assoc]
      exact isGroupMarker_of_digit (direction.starts (by decide) _)

theorem WrittenVisibility.unmarked (visibility : WrittenVisibility)
    : ∀ word ∈ visibility.words, isGroupMarker word = false := by
  have milesUnmarked (above below : Numeral) : isGroupMarker (milesText above below) = false := by
    rw [milesText, List.append_assoc]
    exact isGroupMarker_of_digit (above.number.starts above.some _)
  intro word member
  cases visibility with
  | cavok =>
      obtain rfl := List.mem_singleton.mp member
      decide
  | metres distance =>
      obtain rfl := List.mem_singleton.mp member
      simpa using isGroupMarker_of_digit (distance.starts (by decide) [])
  | miles beyond whole =>
      obtain rfl := List.mem_singleton.mp member
      obtain ⟨first, rest, split, digit⟩ := whole.number.exists_first whole.some
      cases beyond with
      | false => exact isGroupMarker_of_digit (whole.number.starts whole.some _)
      | true =>
          have other : first ≠ 'R' := by
            rintro rfl
            cases digit
          rw [Numeral.text, split]
          exact isGroupMarker_eq_false (by simp [List.cons_prefix_cons])
            (by simp [List.cons_prefix_cons]) (by simp [List.cons_prefix_cons])
            (by simp [List.cons_prefix_cons, other.symm])
            (by simp [List.cons_prefix_cons, other.symm])
  | fraction above below =>
      obtain rfl := List.mem_singleton.mp member
      exact milesUnmarked above below
  | mixed whole above below =>
      simp only [WrittenVisibility.words, List.mem_cons, List.not_mem_nil, or_false] at member
      rcases member with rfl | rfl
      · have starts := whole.number.starts whole.some []
        rw [List.append_nil] at starts
        exact isGroupMarker_of_digit starts
      · exact milesUnmarked above below

theorem WrittenVisibility.ne_nil (visibility : WrittenVisibility)
    : ∀ word ∈ visibility.words, word ≠ [] := by
  intro word member
  cases visibility with
  | cavok =>
      obtain rfl := List.mem_singleton.mp member
      decide
  | metres distance =>
      obtain rfl := List.mem_singleton.mp member
      exact distance.ne_nil (by decide)
  | miles beyond whole =>
      obtain rfl := List.mem_singleton.mp member
      simp
  | fraction above below =>
      obtain rfl := List.mem_singleton.mp member
      simp [milesText]
  | mixed whole above below =>
      simp only [WrittenVisibility.words, List.mem_cons, List.not_mem_nil, or_false] at member
      rcases member with rfl | rfl
      · exact whole.number.ne_nil whole.some
      · simp [milesText]

theorem TafWeather.unmarked (weather : TafWeather) : isGroupMarker weather.text = false := by
  cases weather with
  | group weather =>
      have noDigit {literal : Text} (shown : ∃ c ∈ literal, c.isDigit = true)
          : ¬ literal <+: weather.text := by
        rintro starts
        obtain ⟨c, member, digit⟩ := shown
        have inside := starts.subset member
        rw [WrittenWeather.text] at inside
        rcases List.mem_append.mp inside with inside | inside
        · have sign : ∀ d ∈ weather.intensity.text, d.isDigit = false := by
            cases weather.intensity <;> decide
          rw [sign c inside] at digit
          cases digit
        · have upper := List.all_eq_true.mp weather.upper c inside
          rw [not_isUpper_of_isDigit digit] at upper
          cases upper
      exact isGroupMarker_eq_false
        (weather.not_start (by decide) (fun code => by cases code <;> decide) (by decide))
        (weather.not_start (by decide) (fun code => by cases code <;> decide) (by decide))
        (weather.not_start (by decide) (fun code => by cases code <;> decide) (by decide))
        (noDigit ⟨'3', by decide, rfl⟩) (noDigit ⟨'4', by decide, rfl⟩)
  | noneSignificant => decide

theorem WrittenSky.unmarked (sky : WrittenSky tafClear) : isGroupMarker sky.text = false := by
  cases sky with
  | clear word known =>
      have all : ∀ word ∈ tafClear, isGroupMarker word = false := by decide
      exact all word known
  | layer amount height kind =>
      simp only [WrittenSky.text]
      cases amount with
      | scattered => exact isGroupMarker_of_first (by decide) _
      | overcast => exact isGroupMarker_of_first (by decide) _
      | few =>
          exact isGroupMarker_eq_false (by simp [CloudAmount.text, List.cons_prefix_cons])
            (by simp [CloudAmount.text, List.cons_prefix_cons])
            (by simp [CloudAmount.text, List.cons_prefix_cons])
            (by simp [CloudAmount.text, List.cons_prefix_cons])
            (by simp [CloudAmount.text, List.cons_prefix_cons])
      | broken =>
          exact isGroupMarker_eq_false (by simp [CloudAmount.text, List.cons_prefix_cons])
            (by simp [CloudAmount.text, List.cons_prefix_cons])
            (by simp [CloudAmount.text, List.cons_prefix_cons])
            (by simp [CloudAmount.text, List.cons_prefix_cons])
            (by simp [CloudAmount.text, List.cons_prefix_cons])
  | vertical height => exact isGroupMarker_of_first (by decide) _

/-- Words of conditions are words, and no markers. -/
theorem mem_conditionWords {written : WrittenConditions} {word : Text}
    (member : word ∈ written.words)
    : IsWord word ∧ IsAscii word ∧ isGroupMarker word = false := by
  have whole {word : Text} (some : word ≠ []) (written : word.all isReportChar = true)
      (unmarked : isGroupMarker word = false)
      : IsWord word ∧ IsAscii word ∧ isGroupMarker word = false :=
    ⟨isWord_of_reportChars some written, isAscii_of_reportChars written, unmarked⟩
  simp only [WrittenConditions.words, List.mem_append, Option.mem_toList, Option.map_eq_some_iff,
    List.mem_map] at member
  rcases member with (((⟨wind, -, rfl⟩ | member) | ⟨weather, -, rfl⟩) | ⟨sky, -, rfl⟩)
    | ⟨shear, -, rfl⟩
  · refine whole ?_ wind.written wind.unmarked
    rw [WrittenWind.text]
    cases wind.direction <;> simp
  · cases visibility : written.visibility with
    | none =>
        rw [visibility] at member
        cases member
    | some visibility' =>
        rw [visibility] at member
        exact whole (visibility'.ne_nil word member) (visibility'.written word member)
          (visibility'.unmarked word member)
  · cases weather with
    | group weather => exact whole weather.ne_nil weather.written (TafWeather.group weather).unmarked
    | noneSignificant => exact whole (by decide) (by decide) (by decide)
  · refine whole ?_ (sky.written (by decide)) sky.unmarked
    cases sky with
    | clear word known =>
        have all : ∀ word ∈ tafClear, word ≠ [] := by decide
        exact all word known
    | layer amount height kind => cases amount <;> simp [WrittenSky.text, CloudAmount.text]
    | vertical height => simp [WrittenSky.text]
  · have literals : "WS".toList.all isReportChar = true ∧ isReportChar '/' = true
        ∧ "KT".toList.all isReportChar = true := by
      decide
    refine whole (by simp [WrittenShear.text]) ?_ ?_
    · simp only [WrittenShear.text, List.all_append, List.all_cons, Digits.written, literals,
        Bool.and_self]
    · exact isGroupMarker_of_first (by decide) _

/-- The group of a change is read from the last of its segments. -/
theorem groupsRead_header (written : WrittenChange)
    : groupsRead [written.indicator.header ++ written.conditions.words] = .ok [written.group] := by
  have header := groupsRead_single
    (parseGroupHeader_header written.indicator written.conditions.words)
  have body : (written.indicator.groupHeader written.conditions.words).body
      = written.conditions.words := by
    cases written.indicator <;> rfl
  rw [body, parseConditions_words] at header
  rw [header]
  refine congrArg (fun group => Except.ok [group]) ?_
  exact groupReading_header _ _ _ _

theorem groupsRead_segments (written : WrittenChange)
    : groupsRead written.change.segments = .ok [written.group] := by
  have before := (groupsRead_eq_nil_iff _).mpr (parseGroupHeader_before written.indicator)
  have header := groupsRead_header written
  rw [TafChange.segments, WrittenChange.change, groupsRead_append, before, header]
  rfl

/-- The groups of changes are read from their segments, by induction on them. -/
theorem groupsRead_changes (changes : List WrittenChange)
    : groupsRead ((changes.map WrittenChange.change).flatMap TafChange.segments)
      = .ok (changes.map WrittenChange.group) := by
  induction changes with
  | nil => rfl
  | cons change changes ih =>
      rw [List.map_cons, List.flatMap_cons, groupsRead_append, groupsRead_segments, ih]
      rfl

theorem forall₂_map_group_iff (changes : List WrittenChange)
    : List.Forall₂ WrittenChange.KeptAs changes (changes.map WrittenChange.group)
      ↔ ∀ change ∈ changes, change.Kept := by
  rw [List.forall₂_map_right_iff, List.forall₂_same]
  exact forall₂_congr fun change _ => keptAs_group_iff change

/-- The segments of the words behind a validity. -/
theorem cutAtMarkers_words (written : WrittenTaf)
    : cutAtMarkers (written.conditions.words
          ++ (written.changes.map WrittenChange.change).flatMap TafChange.words)
      = [written.conditions.words].filter (· ≠ [])
        ++ (written.changes.map WrittenChange.change).flatMap TafChange.segments := by
  have unmarked : ∀ word ∈ written.conditions.words, isGroupMarker word = false :=
    fun word member => (mem_conditionWords member).2.2
  have changes := @markedGroups_changes (written.changes.map WrittenChange.change) (by
    intro change member word inside
    obtain ⟨written, -, rfl⟩ := List.mem_map.mp member
    exact (@mem_conditionWords written.conditions word inside).2.2) [] rfl
  rw [List.append_nil] at changes
  rw [cutAtMarkers_eq, markedGroups_append unmarked, changes]
  by_cases empty : written.conditions.words = [] <;> simp [empty, markedGroups]

/-- The first segment of a change can be read as conditions. -/
theorem returns_firstSegment (written : WrittenChange)
    : Returns (parseConditions (written.change.segments.headD [])) := by
  refine returns_parseConditions fun word member => ?_
  have header : ∀ word ∈ written.indicator.header, IsAscii word := fun word member =>
    isAscii_indicator written.indicator word (List.mem_append_right _ member)
  have likelihood : ∀ segment ∈ written.indicator.before, ∀ word ∈ segment, IsAscii word :=
    fun segment among word member => isAscii_indicator written.indicator word
      (List.mem_append_left _ (List.mem_flatten.mpr ⟨segment, among, member⟩))
  rw [TafChange.segments, WrittenChange.change] at member
  cases before : written.indicator.before with
  | nil =>
      rw [before] at member
      rcases List.mem_append.mp member with member | member
      · exact header word member
      · exact (mem_conditionWords member).2.1
  | cons segment more =>
      rw [before] at member likelihood
      exact likelihood segment (by simp) word member

/-- Behind the validity stand words. -/
theorem isWord_behind_validity (written : WrittenTaf) {text : Text}
    (layout : tokens isAsciiWhitespace text = written.words)
    : ∀ word ∈ written.conditions.words
          ++ (written.changes.map WrittenChange.change).flatMap TafChange.words,
        IsWord word := by
  intro word member
  rcases List.mem_append.mp member with member | member
  · exact (mem_conditionWords member).1
  · obtain ⟨change, among, member⟩ := List.mem_flatMap.mp member
    obtain ⟨change, -, rfl⟩ := List.mem_map.mp among
    rcases List.mem_append.mp member with member | member
    · have inside : word ∈ tokens isAsciiWhitespace text := by
        rw [layout, WrittenTaf.words]
        have found : word ∈ (written.changes.map WrittenChange.change).flatMap TafChange.words :=
          List.mem_flatMap.mpr ⟨change.change, among, List.mem_append_left _ member⟩
        simp [found]
      exact ⟨(isToken_of_mem_tokens inside).nonempty,
        visible_indicator change.indicator word member⟩
    · exact (@mem_conditionWords change.conditions word member).1

/-- What is read of a forecast whose heading does not take its station, by its segments. -/
theorem readFrom_iff_of_segments {written : WrittenTaf} {text : Text}
    (layout : tokens isAsciiWhitespace text = written.words)
    (free : ¬ written.heading.Takes written.station)
    {initial : TafConditions} {groups : List TafGroupReading}
    (segments
      : readSegments ([written.conditions.words].filter (· ≠ [])
          ++ (written.changes.map WrittenChange.change).flatMap TafChange.segments)
        = .ok (initial, groups))
    : written.ReadFrom text ↔ List.Forall₂ WrittenChange.KeptAs written.changes groups := by
  have read := readTaf_words written.isStation written.isIssueTime free layout
  rw [flatMap_splitWhitespace (isWord_behind_validity written layout), cutAtMarkers_words,
    segments] at read
  constructor
  · rintro ⟨reading, found, kept⟩
    rw [read] at found
    obtain rfl := Option.some.inj (Except.ok.inj found)
    exact kept
  · intro kept
    exact ⟨_, read, kept⟩

/-- Without conditions the first change, or the likelihood in front of it, is taken for them, and
not all of the changes are kept.
-/
theorem readSegments_changes (first : WrittenChange) (others : List WrittenChange)
    : ∃ initial groups,
        readSegments (first.change.segments
            ++ (others.map WrittenChange.change).flatMap TafChange.segments)
          = .ok (initial, groups)
        ∧ ¬ List.Forall₂ WrittenChange.KeptAs (first :: others) groups := by
  have groups := groupsRead_changes others
  obtain ⟨initial, firstRead⟩ := returns_firstSegment first
  cases before : first.indicator.before with
  | nil =>
      have cut : first.change.segments
          = [first.indicator.header ++ first.conditions.words] := by
        rw [TafChange.segments, WrittenChange.change, before]
        rfl
      rw [cut, List.headD_cons] at firstRead
      refine ⟨initial, others.map WrittenChange.group, ?_, ?_⟩
      · rw [cut, List.singleton_append, readSegments_cons, firstRead, groups]
        rfl
      · intro kept
        have size := kept.length_eq
        simp at size
  | cons likelihood more =>
      have temporary : ∃ likelihood validity,
          first.indicator = .probTempo likelihood validity := by
        cases indicator : first.indicator <;> simp_all [TafIndicator.before]
      obtain ⟨percent, validity, same⟩ := temporary
      have single : more = [] := by
        rw [same] at before
        cases before
        rfl
      have cut : first.change.segments
          = [likelihood, first.indicator.header ++ first.conditions.words] := by
        rw [TafChange.segments, WrittenChange.change, before, single]
        rfl
      rw [cut, List.headD_cons] at firstRead
      refine ⟨initial, (first :: others).map WrittenChange.group, ?_, ?_⟩
      · rw [cut, List.cons_append, readSegments_cons, firstRead, List.cons_append,
          List.nil_append, ← List.singleton_append, groupsRead_append, groupsRead_header, groups]
        rfl
      · rw [forall₂_map_group_iff]
        intro kept
        exact (kept first (by simp)).single percent validity same

/-- A forecast is read with all of its changes exactly if its heading does not take its station,
conditions stand in front of the first change, and every change is one that is kept.
-/
theorem readFrom_iff (written : WrittenTaf) {text : Text}
    (layout : tokens isAsciiWhitespace text = written.words)
    : written.ReadFrom text
      ↔ ¬ written.heading.Takes written.station
        ∧ (written.changes = [] ∨ written.conditions.words ≠ [])
        ∧ ∀ change ∈ written.changes, change.Kept := by
  by_cases takes : written.heading.Takes written.station
  · have read := readTaf_takes written.isStation written.isIssueTime takes layout
    simp only [takes, not_true, false_and, iff_false]
    rintro ⟨reading, found, -⟩
    rw [read] at found
    cases found
  simp only [takes, not_false_iff, true_and]
  by_cases empty : written.conditions.words = []
  · cases changes : written.changes with
    | nil =>
        rw [@readFrom_iff_of_segments _ _ layout takes {} []]
        · simp [changes]
        · simp [empty, changes]
          rfl
    | cons first others =>
        simp only [reduceCtorEq, empty, ne_eq, not_true, or_self, false_and, iff_false]
        obtain ⟨initial, groups, segments, lost⟩ := readSegments_changes first others
        have whole : [written.conditions.words].filter (· ≠ [])
              ++ (written.changes.map WrittenChange.change).flatMap TafChange.segments
            = first.change.segments
              ++ (others.map WrittenChange.change).flatMap TafChange.segments := by
          simp [empty, changes]
        rw [readFrom_iff_of_segments layout takes (whole ▸ segments), changes]
        exact lost
  · rw [@readFrom_iff_of_segments _ _ layout takes written.conditions.readTaf
        (written.changes.map WrittenChange.group), forall₂_map_group_iff]
    · simp [empty]
    · have alone : [written.conditions.words].filter (· ≠ []) = [written.conditions.words] := by
        simp [empty]
      rw [alone, List.singleton_append, readSegments_cons, parseConditions_words,
        groupsRead_changes]
      rfl

-----------------------------------------------------------------------------------------
-- A likelihood of a temporary change
-----------------------------------------------------------------------------------------

def sampleConditions : WrittenConditions where
  wind := some ⟨some ⟨"280".toList, by decide, rfl⟩, .two ⟨"12".toList, by decide, rfl⟩, none⟩
  visibility := some (.miles true ⟨1, by decide, ⟨"6".toList, by decide, rfl⟩⟩)
  weather := []
  sky := [.layer .few ⟨"250".toList, by decide, rfl⟩ none]
  shear := none

def stormConditions : WrittenConditions where
  wind := none
  visibility := some (.miles false ⟨1, by decide, ⟨"2".toList, by decide, rfl⟩⟩)
  weather := [.group ⟨.heavy, [.ts, .ra], by decide, by decide⟩]
  sky := [.layer .broken ⟨"040".toList, by decide, rfl⟩ (some .cumulonimbus)]
  shear := none

/-- A forecast with one change. -/
def sampleTaf (indicator : TafIndicator) : WrittenTaf where
  heading := .routine
  station := "KDSM".toList
  issueTime := "090520Z".toList
  validity := sampleValidity
  conditions := sampleConditions
  changes := [⟨indicator, stormConditions⟩]
  isStation := by decide
  isIssueTime := by decide

/-- A likely change is kept. -/
theorem readFrom_sample
    : (sampleTaf (.prob .thirty sampleValidity)).ReadFrom
          ("TAF KDSM 090520Z 0906/1012 28012KT P6SM FEW250\n"
            ++ "  PROB30 0906/1012 2SM +TSRA BKN040CB\n").toList
        ↔ ¬ TafHeading.routine.Takes "KDSM".toList
          ∧ ((sampleTaf (.prob .thirty sampleValidity)).changes = []
            ∨ sampleConditions.words ≠ [])
          ∧ ∀ change ∈ (sampleTaf (.prob .thirty sampleValidity)).changes, change.Kept :=
  readFrom_iff (sampleTaf (.prob .thirty sampleValidity)) (by decide +kernel)

/-- The likelihood of a temporary change is lost. -/
theorem temporary_likelihood_lost
    : ¬ ∀ (written : WrittenTaf) (text : Text),
        tokens isAsciiWhitespace text = written.words → written.ReadFrom text := by
  intro kept
  obtain ⟨reading, read, groups⟩ := kept (sampleTaf (.probTempo .thirty sampleValidity))
    ("TAF KDSM 090520Z 0906/1012 28012KT P6SM FEW250\n"
      ++ "  PROB30 TEMPO 0906/1012 2SM +TSRA BKN040CB\n").toList (by decide +kernel)
  have lost : ((fun found => found.map fun reading =>
        reading.groups.map TafGroupReading.probabilityPercent)
      <$> readTaf ("TAF KDSM 090520Z 0906/1012 28012KT P6SM FEW250\n"
        ++ "  PROB30 TEMPO 0906/1012 2SM +TSRA BKN040CB\n").toList)
      = .ok (some [none]) := by
    decide +kernel
  rw [read] at lost
  have lost : reading.groups.map TafGroupReading.probabilityPercent = [none] :=
    Option.some.inj (Except.ok.inj lost)
  obtain ⟨group, others, ⟨⟨-, -, -, percent⟩, -⟩, -, split⟩ :=
    List.forall₂_cons_left_iff.mp groups
  rw [split, List.map_cons, percent] at lost
  cases lost

end Emwin.Parser
