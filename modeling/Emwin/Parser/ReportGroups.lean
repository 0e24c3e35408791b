import Emwin.Library.Decimal
import Emwin.Library.WordPrefixes
import Emwin.Parser.Support

/-! The groups of aviation reports as they are written. -/

namespace Emwin.Parser
open Library

-----------------------------------------------------------------------------------------
-- Numbers
-----------------------------------------------------------------------------------------

/-- A number of digits. -/
structure Digits (count : Nat) where
  text : Text
  digits : text.all Char.isDigit = true
  length : text.length = count
  deriving DecidableEq, Repr

namespace Digits

variable {count : Nat} (number : Digits count)

def value : Nat := digitsNat number.text

theorem isAscii : IsAscii number.text := isAscii_of_digits number.digits

theorem utf8Len_eq : utf8Len number.text = count := by
  rw [number.isAscii.utf8Len_eq, number.length]

theorem isDigit_of_mem {c : Char} (member : c ∈ number.text) : c.isDigit = true :=
  List.all_eq_true.mp number.digits c member

theorem not_mem {c : Char} (other : c.isDigit = false) : c ∉ number.text := by
  intro member
  rw [number.isDigit_of_mem member] at other
  cases other

theorem value_lt : number.value < 10 ^ count := by
  have small := digitsNat_lt number.digits
  rwa [number.length] at small

theorem ne_nil (some : count ≠ 0) : number.text ≠ [] := by
  intro empty
  have size := number.length
  rw [empty] at size
  exact some size.symm

/-- A number is read where it fits. -/
theorem parseUnsigned_eq (bound : Nat) (some : count ≠ 0) (fits : 10 ^ count ≤ bound)
    : parseUnsigned bound number.text = .some number.value := by
  have unsigned : '+' ∉ number.text := number.not_mem rfl
  refine (parseUnsigned_eq_some_iff unsigned).mpr ⟨?_, number.value_lt.trans_le fits⟩
  rw [digitsValue?, if_pos ⟨number.ne_nil some, number.digits⟩]
  rfl

theorem exists_first (some : count ≠ 0)
    : ∃ first rest, number.text = first :: rest ∧ first.isDigit = true := by
  obtain ⟨first, rest, split⟩ := List.exists_cons_of_ne_nil (number.ne_nil some)
  exact ⟨first, rest, split, number.isDigit_of_mem (by simp [split])⟩

end Digits

/-- A number with at least one digit. -/
structure Numeral where
  count : Nat
  some : count ≠ 0
  number : Digits count
  deriving Repr

def Numeral.text (numeral : Numeral) : Text := numeral.number.text

-----------------------------------------------------------------------------------------
-- Wind
-----------------------------------------------------------------------------------------

/-- A speed, of two or of three digits. -/
inductive WrittenSpeed where
  | two (number : Digits 2)
  | three (number : Digits 3)
  deriving DecidableEq, Repr

def WrittenSpeed.text : WrittenSpeed → Text
  | .two number => number.text
  | .three number => number.text

def WrittenSpeed.value : WrittenSpeed → Nat
  | .two number => number.value
  | .three number => number.value

/-- A wind from a direction, or a variable one. -/
structure WrittenWind where
  direction : Option (Digits 3)
  speed : WrittenSpeed
  gust : Option WrittenSpeed
  deriving DecidableEq, Repr

/-- What stands behind the direction. -/
def WrittenWind.strength (wind : WrittenWind) : Text :=
  match wind.gust with
  | none => wind.speed.text
  | some gust => wind.speed.text ++ 'G' :: gust.text

def WrittenWind.text (wind : WrittenWind) : Text :=
  match wind.direction with
  | none => "VRB".toList ++ wind.strength ++ "KT".toList
  | some direction => direction.text ++ wind.strength ++ "KT".toList

-----------------------------------------------------------------------------------------
-- Visibility
-----------------------------------------------------------------------------------------

inductive WrittenVisibility where
  | cavok
  | metres (distance : Digits 4)
  /-- Whole miles, or more than these. -/
  | miles (beyond : Bool) (whole : Numeral)
  | fraction (above below : Numeral)
  | mixed (whole above below : Numeral)
  deriving Repr

def milesText (above below : Numeral) : Text := above.text ++ '/' :: below.text ++ "SM".toList

def WrittenVisibility.words : WrittenVisibility → List Text
  | .cavok => ["CAVOK".toList]
  | .metres distance => [distance.text]
  | .miles beyond whole =>
      [(if beyond then "P".toList else []) ++ whole.text ++ "SM".toList]
  | .fraction above below => [milesText above below]
  | .mixed whole above below => [whole.text, milesText above below]

-----------------------------------------------------------------------------------------
-- Weather
-----------------------------------------------------------------------------------------

/-- What is written of the weather with two letters each. -/
inductive WeatherCode where
  | mi | bc | pr | dr | bl | sh | ts | fz
  | dz | ra | sn | sg | ic | pl | gr | gs | up
  | br | fg | fu | va | du | sa | hz | py
  | po | sq | fc | ss | ds
  | vc
  deriving DecidableEq, Repr

def WeatherCode.text : WeatherCode → Text
  | .mi => "MI".toList | .bc => "BC".toList | .pr => "PR".toList | .dr => "DR".toList
  | .bl => "BL".toList | .sh => "SH".toList | .ts => "TS".toList | .fz => "FZ".toList
  | .dz => "DZ".toList | .ra => "RA".toList | .sn => "SN".toList | .sg => "SG".toList
  | .ic => "IC".toList | .pl => "PL".toList | .gr => "GR".toList | .gs => "GS".toList
  | .up => "UP".toList | .br => "BR".toList | .fg => "FG".toList | .fu => "FU".toList
  | .va => "VA".toList | .du => "DU".toList | .sa => "SA".toList | .hz => "HZ".toList
  | .py => "PY".toList | .po => "PO".toList | .sq => "SQ".toList | .fc => "FC".toList
  | .ss => "SS".toList | .ds => "DS".toList | .vc => "VC".toList

inductive Intensity where
  | light
  | moderate
  | heavy
  deriving DecidableEq, Repr

def Intensity.text : Intensity → Text
  | .light => "-".toList
  | .moderate => []
  | .heavy => "+".toList

/-- Weather of one to four codes: a descriptor and up to three kinds of it. -/
structure WrittenWeather where
  intensity : Intensity
  codes : List WeatherCode
  some : codes ≠ []
  few : codes.length ≤ 4
  deriving DecidableEq, Repr

def WrittenWeather.letters (weather : WrittenWeather) : Text :=
  weather.codes.flatMap WeatherCode.text

def WrittenWeather.text (weather : WrittenWeather) : Text :=
  weather.intensity.text ++ weather.letters

-----------------------------------------------------------------------------------------
-- Clouds
-----------------------------------------------------------------------------------------

inductive CloudAmount where
  | few
  | scattered
  | broken
  | overcast
  deriving DecidableEq, Repr

def CloudAmount.text : CloudAmount → Text
  | .few => "FEW".toList
  | .scattered => "SCT".toList
  | .broken => "BKN".toList
  | .overcast => "OVC".toList

inductive CloudKind where
  | cumulonimbus
  | towering
  deriving DecidableEq, Repr

def CloudKind.text : CloudKind → Text
  | .cumulonimbus => "CB".toList
  | .towering => "TCU".toList

/-- The sky: clear as one of some words has it, a layer, or a vertical visibility. -/
inductive WrittenSky (clearWords : List Text) where
  | clear (word : Text) (known : word ∈ clearWords)
  | layer (amount : CloudAmount) (height : Digits 3) (kind : Option CloudKind)
  | vertical (height : Digits 3)
  deriving DecidableEq, Repr

def WrittenSky.text {clearWords : List Text} : WrittenSky clearWords → Text
  | .clear word _ => word
  | .layer amount height kind =>
      amount.text ++ height.text ++ (kind.map CloudKind.text).getD []
  | .vertical height => "VV".toList ++ height.text

-----------------------------------------------------------------------------------------
-- Characters
-----------------------------------------------------------------------------------------

/-- What groups are written with. -/
def isReportChar (c : Char) : Bool := c.isUpper || c.isDigit || "/+-".toList.contains c

theorem isReportChar_of_isDigit {c : Char} (digit : c.isDigit = true) : isReportChar c = true := by
  simp [isReportChar, digit]

theorem isAscii_of_reportChars {text : Text} (written : text.all isReportChar = true)
    : IsAscii text := by
  intro c member
  have shown := List.all_eq_true.mp written c member
  simp only [isReportChar, Bool.or_eq_true] at shown
  rcases shown with (upper | digit) | other
  · exact utf8Size_of_isAlphanum (isAlphanum_of_isUpper upper)
  · exact utf8Size_of_isDigit digit
  · have all : ∀ c ∈ "/+-".toList, c.utf8Size = 1 := by decide
    exact all c (by simpa using other)

theorem isWord_of_reportChars {text : Text} (some : text ≠ [])
    (written : text.all isReportChar = true)
    : IsWord text := by
  refine ⟨some, fun c member => ?_⟩
  have shown := List.all_eq_true.mp written c member
  simp only [isReportChar, Bool.or_eq_true] at shown
  rcases shown with (upper | digit) | other
  · exact isWhitespace_of_isAlphanum (isAlphanum_of_isUpper upper)
  · exact isWhitespace_of_isDigit digit
  · have all : ∀ c ∈ "/+-".toList, isWhitespace c = false := by decide
    exact all c (by simpa using other)

theorem Digits.written {count : Nat} (number : Digits count)
    : number.text.all isReportChar = true :=
  List.all_eq_true.mpr fun _ member => isReportChar_of_isDigit (number.isDigit_of_mem member)

theorem WrittenSpeed.written (speed : WrittenSpeed) : speed.text.all isReportChar = true := by
  cases speed <;> exact Digits.written _

theorem WrittenSpeed.digits (speed : WrittenSpeed) : speed.text.all Char.isDigit = true := by
  cases speed <;> exact Digits.digits _

theorem WrittenWind.written (wind : WrittenWind) : wind.text.all isReportChar = true := by
  have literals : "VRB".toList.all isReportChar = true ∧ "KT".toList.all isReportChar = true
      ∧ isReportChar 'G' = true := by
    decide
  have strength : wind.strength.all isReportChar = true := by
    rw [WrittenWind.strength]
    cases wind.gust <;> simp only [List.all_append, List.all_cons, WrittenSpeed.written, literals,
      Bool.and_self]
  rw [WrittenWind.text]
  cases wind.direction <;> simp only [List.all_append, Digits.written, strength, literals,
    Bool.and_self]

theorem milesText_written (above below : Numeral)
    : (milesText above below).all isReportChar = true := by
  have literals : isReportChar '/' = true ∧ "SM".toList.all isReportChar = true := by decide
  simp only [milesText, Numeral.text, List.all_append, List.all_cons, Digits.written, literals,
    Bool.and_self]

theorem WrittenVisibility.written (visibility : WrittenVisibility)
    : ∀ word ∈ visibility.words, word.all isReportChar = true := by
  intro word member
  cases visibility with
  | cavok =>
      obtain rfl := List.mem_singleton.mp member
      decide
  | metres distance =>
      obtain rfl := List.mem_singleton.mp member
      exact distance.written
  | miles beyond whole =>
      have literals : "P".toList.all isReportChar = true ∧ "SM".toList.all isReportChar = true := by
        decide
      obtain rfl := List.mem_singleton.mp member
      cases beyond
      · simp only [Numeral.text, List.all_append, Digits.written, literals, Bool.and_self,
          Bool.false_eq_true, if_false, List.all_nil]
      · simp only [Numeral.text, List.all_append, Digits.written, literals, Bool.and_self, if_true]
  | fraction above below =>
      obtain rfl := List.mem_singleton.mp member
      exact milesText_written above below
  | mixed whole above below =>
      simp only [WrittenVisibility.words, List.mem_cons, List.not_mem_nil, or_false] at member
      rcases member with rfl | rfl
      · exact whole.number.written
      · exact milesText_written above below

theorem WrittenWeather.upper (weather : WrittenWeather)
    : weather.letters.all Char.isUpper = true := by
  rw [WrittenWeather.letters, List.all_flatMap]
  refine List.all_eq_true.mpr fun code _ => ?_
  cases code <;> decide

theorem WrittenWeather.written (weather : WrittenWeather)
    : weather.text.all isReportChar = true := by
  have letters : weather.letters.all isReportChar = true :=
    List.all_eq_true.mpr fun c member => by
      simp [isReportChar, List.all_eq_true.mp weather.upper c member]
  have sign : weather.intensity.text.all isReportChar = true := by
    cases weather.intensity <;> decide
  simp only [WrittenWeather.text, List.all_append, letters, sign, Bool.and_self]

theorem WrittenSky.written {clearWords : List Text}
    (clear : ∀ word ∈ clearWords, word.all isReportChar = true) (sky : WrittenSky clearWords)
    : sky.text.all isReportChar = true := by
  cases sky with
  | clear word known => exact clear word known
  | layer amount height kind =>
      have amounts : amount.text.all isReportChar = true := by cases amount <;> decide
      have kinds : ((kind.map CloudKind.text).getD []).all isReportChar = true := by
        rcases kind with _ | kind
        · rfl
        · cases kind <;> decide
      simp only [WrittenSky.text, List.all_append, amounts, height.written, kinds, Bool.and_self]
  | vertical height =>
      have literal : "VV".toList.all isReportChar = true := by decide
      simp only [WrittenSky.text, List.all_append, literal, height.written, Bool.and_self]

-----------------------------------------------------------------------------------------
-- Ends of weather
-----------------------------------------------------------------------------------------

/-- Weather starts with a sign or with a code. -/
theorem WrittenWeather.exists_start (weather : WrittenWeather)
    : ∃ code : WeatherCode, ∃ rest : Text,
        weather.letters = code.text ++ rest
        ∧ (weather.intensity = .moderate ∧ weather.text = code.text ++ rest
          ∨ ∃ sign, (sign = '+' ∨ sign = '-') ∧ weather.text = sign :: (code.text ++ rest)) := by
  obtain ⟨code, codes, split⟩ := List.exists_cons_of_ne_nil weather.some
  have letters : weather.letters = code.text ++ codes.flatMap WeatherCode.text := by
    rw [WrittenWeather.letters, split, List.flatMap_cons]
  refine ⟨code, codes.flatMap WeatherCode.text, letters, ?_⟩
  rw [WrittenWeather.text, letters]
  cases weather.intensity with
  | light => exact .inr ⟨'-', .inr rfl, rfl⟩
  | moderate => exact .inl ⟨rfl, rfl⟩
  | heavy => exact .inr ⟨'+', .inl rfl, rfl⟩

/-- Weather ends with a code. -/
theorem WrittenWeather.exists_end (weather : WrittenWeather)
    : ∃ code : WeatherCode, ∃ front : Text, weather.text = front ++ code.text := by
  rcases List.eq_nil_or_concat weather.codes with none | ⟨codes, code, split⟩
  · exact absurd none weather.some
  · refine ⟨code, weather.intensity.text ++ codes.flatMap WeatherCode.text, ?_⟩
    rw [WrittenWeather.text, WrittenWeather.letters, split]
    simp

theorem WeatherCode.length_text (code : WeatherCode) : code.text.length = 2 := by
  cases code <;> rfl

/-- Two letters that are no code do not end weather. -/
theorem WrittenWeather.not_suffix (weather : WrittenWeather) {literal : Text}
    (two : literal.length = 2) (unknown : ∀ code : WeatherCode, code.text ≠ literal)
    : ¬ literal <:+ weather.text := by
  intro ends
  obtain ⟨code, front, split⟩ := weather.exists_end
  have size := code.length_text
  have here : code.text <:+ weather.text := split ▸ List.suffix_append front code.text
  exact unknown code ((List.suffix_of_suffix_length_le here ends (by omega)).eq_of_length (by omega))

/-- What starts with two letters that are no code does not start weather. -/
theorem WrittenWeather.not_start (weather : WrittenWeather) {literal : Text}
    (long : 2 ≤ literal.length) (unknown : ∀ code : WeatherCode, code.text ≠ literal.take 2)
    (letter : ∀ c ∈ literal.head?, c ≠ '+' ∧ c ≠ '-')
    : ¬ literal <+: weather.text := by
  intro starts
  obtain ⟨code, rest, -, ⟨-, split⟩ | ⟨sign, signs, split⟩⟩ := weather.exists_start
  · have size := code.length_text
    have here : code.text <+: weather.text := split ▸ List.prefix_append code.text rest
    have front : literal.take 2 <+: weather.text := (List.take_prefix 2 literal).trans starts
    have length : (literal.take 2).length = 2 := by simp [long]
    exact unknown code
      ((List.prefix_of_prefix_length_le here front (by omega)).eq_of_length (by omega))
  · obtain ⟨first, more, rfl⟩ : ∃ first more, literal = first :: more := by
      cases literal with
      | nil => simp at long
      | cons first more => exact ⟨first, more, rfl⟩
    rw [split] at starts
    obtain ⟨rfl, -⟩ := List.cons_prefix_cons.mp starts
    have other := letter first rfl
    rcases signs with rfl | rfl
    · exact other.1 rfl
    · exact other.2 rfl

/-- Weather is none of some words that do not start with a code. -/
theorem WrittenWeather.not_mem (weather : WrittenWeather) {literals : List Text}
    (long : ∀ literal ∈ literals, 2 ≤ literal.length ∧ ∀ c ∈ literal.head?, c ≠ '+' ∧ c ≠ '-')
    (unknown : ∀ literal ∈ literals, ∀ code : WeatherCode, code.text ≠ literal.take 2)
    : weather.text ∉ literals := fun member =>
  weather.not_start (long _ member).1 (unknown _ member) (long _ member).2 List.prefix_rfl

theorem WrittenWeather.letters_not_mem (weather : WrittenWeather) {literals : List Text}
    (long : ∀ literal ∈ literals, 2 ≤ literal.length ∧ ∀ c ∈ literal.head?, c ≠ '+' ∧ c ≠ '-')
    (unknown : ∀ literal ∈ literals, ∀ code : WeatherCode, code.text ≠ literal.take 2)
    : weather.letters ∉ literals :=
  { weather with intensity := .moderate }.not_mem long unknown

end Emwin.Parser
