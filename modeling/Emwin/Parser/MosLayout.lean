import Emwin.Parser.MosSections

/-! Sections as they are printed, and the sections whose values stay in their columns. -/

namespace Emwin.Parser
open Library

-----------------------------------------------------------------------------------------
-- Headers
-----------------------------------------------------------------------------------------

/-- The header line of a section: a station, and words behind it with blanks between them. -/
structure MosHeader where
  station : Text
  model : Text
  version : Option Text
  mosName : Text
  month : Text
  day : Text
  year : Text
  hour : Nat
  minute : Nat
  date : CivilDate
  /-- The words behind the station, each with the blanks in front of it. -/
  pieces : List (Text × Text)
  words
    : pieces.map Prod.snd
      = model :: (version.toList
          ++ [mosName, "GUIDANCE".toList, month ++ '/' :: (day ++ '/' :: year),
            twoDigits hour ++ twoDigits minute, "UTC".toList])
  blanks : ∀ piece ∈ pieces, piece.1 ≠ [] ∧ ∀ c ∈ piece.1, c = ' '
  isStation : IsWord station
  initial : ∀ c ∈ station.head?, c.isAlphanum = true
  isModel : IsWord model
  isName : IsWord mosName
  isVersion : ∀ found ∈ version, IsWord found ∧ found.head? = some 'V'
  unversioned : version = none → mosName.head? ≠ some 'V'
  monthReads : digitsValue? month = some date.month
  dayReads : digitsValue? day = some date.day
  yearReads : digitsValue? year = some date.year.toNat
  valid : date.Valid
  century : 1000 ≤ date.year ∧ date.year ≤ 9999
  clock : hour ≤ 23 ∧ minute ≤ 59

def MosHeader.text (header : MosHeader) : Text := header.station ++ spaced header.pieces

/-- What is read from the header line. -/
def MosHeader.fields (header : MosHeader) : SectionHeader where
  station := header.station
  model := header.model
  mosName := header.mosName
  month := header.date.month
  day := header.date.day
  year := header.date.year
  hhmm := twoDigits header.hour ++ twoDigits header.minute

/-- The start of the run. -/
def MosHeader.init (header : MosHeader) : Int := instantOf header.date header.hour 0

/-- The start of the run as the code writes it. -/
def rfc3339Text (date : CivilDate) (hour : Nat) : Text :=
  signedDigits date.year ++ '-' :: twoDigits date.month ++ '-' :: twoDigits date.day
    ++ 'T' :: twoDigits hour ++ ":00:00Z".toList

/-- Dates and whole hours of years with four digits are read as what they say. -/
def TimeTexts.ReadsRfc3339 (texts : TimeTexts) : Prop :=
  ∀ date hour, CivilDate.Valid date → 1000 ≤ date.year ∧ date.year ≤ 9999 → hour ≤ 23
    → texts.parseRfc3339 (rfc3339Text date hour) = some (instantOf date hour 0)

theorem digits_of_value {digits : Text} {value : Nat} (reads : digitsValue? digits = some value)
    : digits ≠ [] ∧ ∀ c ∈ digits, c.isDigit = true := by
  unfold digitsValue? at reads
  split at reads
  · next both => exact ⟨both.1, List.all_eq_true.mp both.2⟩
  · cases reads

theorem parseUnsigned_of_value {digits : Text} {value bound : Nat}
    (reads : digitsValue? digits = some value) (small : value < bound)
    : parseUnsigned bound digits = some value := by
  have unsigned : '+' ∉ digits := fun member =>
    absurd ((digits_of_value reads).2 '+' member) (by decide)
  exact (parseUnsigned_eq_some_iff unsigned).mpr ⟨reads, small⟩

theorem twoDigits_digits {number : Nat} (small : number < 100)
    : (twoDigits number).length = 2 ∧ ∀ c ∈ twoDigits number, c.isDigit = true := by
  have all : ∀ number < 100,
      (twoDigits number).length = 2 ∧ ∀ c ∈ twoDigits number, c.isDigit = true := by
    decide +kernel
  exact all number small

namespace MosHeader

variable (header : MosHeader)

theorem isWord_date : IsWord (header.month ++ '/' :: (header.day ++ '/' :: header.year)) := by
  refine ⟨by simp, fun c member => ?_⟩
  have digit {c : Char} (digit : c.isDigit = true) := isWhitespace_of_isDigit digit
  simp only [List.mem_append, List.mem_cons] at member
  rcases member with inMonth | rfl | inDay | rfl | inYear
  · exact digit ((digits_of_value header.monthReads).2 c inMonth)
  · decide
  · exact digit ((digits_of_value header.dayReads).2 c inDay)
  · decide
  · exact digit ((digits_of_value header.yearReads).2 c inYear)

theorem isWord_clock : IsWord (twoDigits header.hour ++ twoDigits header.minute) := by
  obtain ⟨hours, minutes⟩ := header.clock
  obtain ⟨two, hourDigits⟩ := twoDigits_digits (show header.hour < 100 by omega)
  obtain ⟨-, minuteDigits⟩ := twoDigits_digits (show header.minute < 100 by omega)
  refine ⟨fun none => ?_, fun c member => ?_⟩
  · have length := congrArg List.length none
    rw [List.length_append, two] at length
    exact absurd length (by simp)
  · exact isWhitespace_of_isDigit ((List.mem_append.mp member).elim (hourDigits c) (minuteDigits c))

theorem isSpaced : ∀ piece ∈ header.pieces, IsSpaced isWhitespace piece := by
  intro piece member
  obtain ⟨apart, blank⟩ := header.blanks piece member
  refine ⟨apart, fun c inside => by rw [blank c inside]; decide, isToken_iff_isWord.mpr ?_⟩
  have listed : piece.2 ∈ header.pieces.map Prod.snd := List.mem_map_of_mem member
  rw [header.words] at listed
  simp only [List.mem_cons, List.mem_append, Option.mem_toList, List.not_mem_nil,
    or_false] at listed
  rcases listed with same | version | same | same | same | same | same
  · exact same ▸ header.isModel
  · exact (header.isVersion _ version).1
  · exact same ▸ header.isName
  · exact same ▸ (by decide)
  · exact same ▸ header.isWord_date
  · exact same ▸ header.isWord_clock
  · exact same ▸ (by decide)

theorem splitWhitespace_text
    : splitWhitespace header.text = header.station :: header.pieces.map Prod.snd := by
  have station := isToken_iff_isWord.mpr header.isStation
  have starts := @head?_spaced isWhitespace header.pieces [] header.isSpaced nofun
  rw [List.append_nil] at starts
  rw [splitWhitespace_eq_tokens, text, tokens_token station starts, tokens_spaced header.isSpaced]

/-- Where a header line starts and ends nothing is trimmed. -/
theorem trim_text : trim header.text = header.text := by
  refine trim_eq_self ?_ ?_
  · obtain ⟨c, rest, same⟩ := List.exists_cons_of_ne_nil header.isStation.nonempty
    have shown := header.isStation.visible c (by simp [same])
    rw [text, same]
    simpa using shown
  · intro c last
    have several : header.pieces ≠ [] := by
      intro none
      have words := header.words
      rw [none] at words
      exact absurd words (by simp)
    obtain ⟨⟨gap, word⟩, ends⟩ : ∃ piece, header.pieces.getLast? = some piece :=
      ⟨_, List.getLast?_eq_some_getLast several⟩
    obtain ⟨before, split⟩ := List.getLast?_eq_some_iff.mp ends
    have isWord := (header.isSpaced (gap, word) (by simp [split])).token
    rw [text, split, spaced_append, spaced_cons, spaced_nil, List.append_nil, ← List.append_assoc,
      ← List.append_assoc, List.getLast?_append_of_ne_nil _ isWord.nonempty] at last
    exact isWord.solid c (List.mem_of_getLast? last)

theorem sanitize_text : sanitizeSectionLine header.text = header.text := by
  obtain ⟨c, rest, same⟩ := List.exists_cons_of_ne_nil header.isStation.nonempty
  have initial := header.initial c (by simp [same])
  have kept : (header.text.dropWhile fun c => !c.isAlphanum && !isAsciiWhitespace c && c != '.')
      = header.text := by
    rw [text, same]
    exact List.dropWhile_cons_of_neg (by simp [initial])
  rw [sanitizeSectionLine, kept, trim_text]

theorem plain_text : Plain header.text := by
  refine plain_append (plain_of_visible header.isStation.visible) (plain_spaced ?_)
  intro piece member
  have gap : piece.1 = List.replicate piece.1.length ' ' :=
    List.eq_replicate_of_mem (header.blanks piece member).2
  refine ⟨?_, plain_of_visible (header.isSpaced piece member).token.solid⟩
  rw [gap]
  exact plain_replicate _

theorem parseHeaderDate_eq
    : parseHeaderDate (header.month ++ '/' :: (header.day ++ '/' :: header.year))
      = some (header.date.month, header.date.day, header.date.year) := by
  obtain ⟨⟨-, months⟩, -, days⟩ := header.valid
  have length := (monthLength_bounds header.date.year header.date.month).2
  obtain ⟨least, most⟩ := header.century
  have noSlash {digits : Text} {value : Nat} (reads : digitsValue? digits = some value)
      : ∀ c ∈ digits, (c == '/') = false := by
    intro c member
    have digit := (digits_of_value reads).2 c member
    simp only [beq_eq_false_iff_ne, ne_eq]
    rintro rfl
    exact absurd digit (by decide)
  have pieces : (header.month ++ '/' :: (header.day ++ '/' :: header.year)).splitOn '/'
      = [header.month, header.day, header.year] := by
    rw [List.splitOn, List.splitOnP_append_cons_of_forall_mem (noSlash header.monthReads) '/' rfl,
      List.splitOnP_append_cons_of_forall_mem (noSlash header.dayReads) '/' rfl,
      List.splitOnP_eq_singleton (noSlash header.yearReads)]
  have yearText : parseSigned (2 ^ 31) header.year = some header.date.year := by
    have bound : header.date.year.toNat < 2 ^ 31 := by omega
    have back : (header.date.year.toNat : Int) = header.date.year := by omega
    obtain ⟨nonempty, digits⟩ := digits_of_value header.yearReads
    obtain ⟨c, rest, same⟩ := List.exists_cons_of_ne_nil nonempty
    have digit := digits c (by simp [same])
    have reads := header.yearReads
    rw [same] at reads ⊢
    unfold parseSigned
    split
    · next first more => exact absurd digit (by simp_all)
    · next first more => exact absurd digit (by simp_all)
    · rw [reads, Option.bind_some, if_pos bound, back]
  rw [parseHeaderDate, pieces]
  have month := @parseUnsigned_of_value _ _ (2 ^ 8) header.monthReads (by omega)
  have day := @parseUnsigned_of_value _ _ (2 ^ 8) header.dayReads (by omega)
  simp only [month, day, yearText]
  rfl

/-- The header line is read as its fields. -/
theorem parseSectionHeader_eq : parseSectionHeader header.text = some header.fields := by
  have four : utf8Len (twoDigits header.hour ++ twoDigits header.minute) = 4 := by
    obtain ⟨hours, minutes⟩ := header.clock
    obtain ⟨two, hourDigits⟩ := twoDigits_digits (show header.hour < 100 by omega)
    obtain ⟨more, minuteDigits⟩ := twoDigits_digits (show header.minute < 100 by omega)
    rw [utf8Len_append,
      (isAscii_of_digits (List.all_eq_true.mpr hourDigits)).utf8Len_eq,
      (isAscii_of_digits (List.all_eq_true.mpr minuteDigits)).utf8Len_eq, two, more]
  have rest (name : Text)
      : parseHeaderRest header.station header.model name
          ["GUIDANCE".toList, header.month ++ '/' :: (header.day ++ '/' :: header.year),
            twoDigits header.hour ++ twoDigits header.minute, "UTC".toList]
        = some { header.fields with mosName := name } := by
    rw [parseHeaderRest]
    simp only [List.getElem?_cons_zero, List.getElem?_cons_succ, Option.bind_eq_bind,
      Option.bind_some, four, and_self, guard_true, header.parseHeaderDate_eq]
    rfl
  rw [parseSectionHeader, splitWhitespace_text, header.words]
  cases version : header.version with
  | none =>
      have other := header.unversioned version
      simp only [Option.toList_none, List.nil_append, List.getElem?_cons_zero,
        List.getElem?_cons_succ, Option.bind_eq_bind, Option.bind_some, List.drop_succ_cons,
        List.drop_zero, if_neg other]
      exact rest header.mosName
  | some found =>
      have isVersion := (header.isVersion found version).2
      simp only [Option.toList_some, List.singleton_append, List.getElem?_cons_zero,
        List.getElem?_cons_succ, Option.bind_eq_bind, Option.bind_some, List.drop_succ_cons,
        List.drop_zero, if_pos isVersion]
      exact rest header.mosName

theorem runtime_eq : header.fields.runtime = .ok (rfc3339Text header.date header.hour) := by
  obtain ⟨hours, -⟩ := header.clock
  obtain ⟨two, digits⟩ := twoDigits_digits (show header.hour < 100 by omega)
  have cut : sliceTo 2 (twoDigits header.hour ++ twoDigits header.minute)
      = .ok (twoDigits header.hour) :=
    sliceTo_eq_ok_iff.mpr
      ⟨_, rfl, (isAscii_of_digits (List.all_eq_true.mpr digits)).utf8Len_eq.trans two⟩
  rw [SectionHeader.runtime, fields, cut]
  rfl

theorem init_aligned : OnTheHour header.init ∧ dayOf header.init = header.date.number := by
  obtain ⟨hours, -⟩ := header.clock
  unfold OnTheHour dayOf init instantOf dayLength hourLength minuteLength
  constructor <;> omega

/-- Behind its first blank the header line has the word `GUIDANCE`, which is no hour. -/
theorem guidance_mem_axisHours : "GUIDANCE".toList ∈ axisHours header.text := by
  have listed : "GUIDANCE".toList ∈ header.pieces.map Prod.snd := by
    rw [header.words]
    simp
  obtain ⟨⟨gap, word⟩, member, same⟩ := List.mem_map.mp listed
  have found : word = "GUIDANCE".toList := same
  obtain ⟨before, after, split⟩ := List.append_of_mem member
  obtain ⟨apart, blank⟩ := header.blanks (gap, word) member
  obtain ⟨front, rfl⟩ : ∃ front, gap = front ++ [' '] := by
    obtain ⟨front, last, rfl⟩ := (List.eq_nil_or_concat' gap).resolve_left apart
    have isBlank : last = ' ' := blank last (by simp)
    exact ⟨front, by rw [isBlank]⟩
  have text : header.text
      = (header.station ++ spaced before ++ front)
        ++ ' ' :: ("GUIDANCE".toList ++ spaced after) := by
    rw [MosHeader.text, split, spaced_append, spaced_cons, found]
    simp
  have separator : isAxisSeparator ' ' = true := by decide
  have stops : ∀ c ∈ (spaced after).head?, isAxisSeparator c = true := by
    cases after with
    | nil => nofun
    | cons next after =>
        obtain ⟨nextGap, nextWord⟩ := next
        obtain ⟨more, blanks⟩ := header.blanks (nextGap, nextWord) (by simp [split])
        obtain ⟨c, rest, rfl⟩ := List.exists_cons_of_ne_nil more
        have isBlank : c = ' ' := blanks c (by simp)
        simp [isBlank, separator]
  have word := @tokens_token isAxisSeparator "GUIDANCE".toList (by decide) _ stops
  rw [axisHours, text, List.splitOnP_append_cons _ _ separator]
  obtain ⟨first, pieces, front⟩ := List.exists_cons_of_ne_nil
    (List.splitOnP_ne_nil isAxisSeparator (header.station ++ spaced before ++ front))
  rw [front, List.cons_append, List.drop_succ_cons, List.drop_zero, List.filter_append]
  refine List.mem_append_right _ ?_
  change _ ∈ tokens isAxisSeparator _
  rw [word]
  simp

end MosHeader

-----------------------------------------------------------------------------------------
-- Layouts
-----------------------------------------------------------------------------------------

/-- A section in columns: the header, the hour axis, and rows of a name and a cell for each
column. The columns have a width and an hour, rows their name and values.
-/
structure MosLayout where
  header : MosHeader
  label : Text
  columns : List (Nat × Text)
  rows : List (Text × List Text)
  listed : label ∈ axisLabels
  apart : ∀ column ∈ columns, column.2.length < column.1
  hours
    : ∀ column ∈ columns,
        ∃ hour,
          digitsValue? column.2 = some hour
          ∧ hour < hourBound (countsHours label header.fields.modelName)
  names : ∀ row ∈ rows, IsRowName row.1
  complete : ∀ row ∈ rows, row.2.length = columns.length
  cells : ∀ row ∈ rows, ∀ cell ∈ (columns.map Prod.fst).zip row.2, IsCell cell
  /-- No row is taken for the axis. -/
  unlabelled
    : ∀ row ∈ rows,
        ∀ known ∈ labelsBefore label,
          ¬ IsLabelled known (row.1 ++ renderCells ((columns.map Prod.fst).zip row.2))

namespace MosLayout

variable (layout : MosLayout)

/-- The cells of a row with the widths of their columns. -/
def rowCells (row : Text × List Text) : List (Nat × Text) :=
  (layout.columns.map Prod.fst).zip row.2

/-- The line of a row. -/
def rowLine (row : Text × List Text) : Text := row.1 ++ renderCells (layout.rowCells row)

/-- The hours with the blanks in front of them; the label is as wide as the names of rows. -/
def axisColumns : List (Text × Text) :=
  (layout.columns.map fun (width, hour) =>
      (List.replicate (width - hour.length) ' ', hour)).modifyHead
    fun (gap, hour) => (List.replicate (3 - layout.label.length) ' ' ++ gap, hour)

def axis : Text := axisLine layout.label layout.axisColumns

def text : Text := joinLines (layout.header.text :: layout.axis :: layout.rows.map layout.rowLine)

/-- The values stay in their columns: there is one forecast row for the time of each hour, every
value is held by the one of its hour in the end, and what a row puts into a forecast row stands
under the hour of that one.
-/
def ValuesInColumns (texts : TimeTexts) : Prop :=
  ∃ found times,
    parseSection texts layout.text = .ok (some found)
    ∧ axisTimesFrom (countsHours layout.label layout.header.fields.modelName) layout.header.init []
        (layout.columns.map Prod.snd)
      = .ok (some times)
    ∧ found.forecasts.map MosForecastRow.valid = times.map texts.toRfc3339
    ∧ (∀ row ∈ layout.rows, ∀ place value,
        row.2[place]? = some value
        → value ≠ []
        → held found.forecasts place (variableOf row.1) = some value)
    ∧ ∀ row ∈ layout.rows,
        ∃ puts,
          lineValues layout.columns.length (layout.rowLine row) = .ok puts
          ∧ ∀ put ∈ puts, row.2[put.1]? = some put.2.2

/-- The header is not taken for the axis, every row has its values in its first columns, as words
and apart, and rows of one variable have no different values for one hour.
-/
structure KeepsColumns : Prop where
  axisFound
    : ∀ known ∈ labelsBefore layout.label ++ [layout.label],
        ¬ IsLabelled known layout.header.text
  inFront : ∀ row ∈ layout.rows, InFront (layout.rowCells row)
  agree
    : ∀ row ∈ layout.rows, ∀ other ∈ layout.rows,
        variableOf row.1 = variableOf other.1
        → ∀ (place : Nat) (value otherValue : Text),
            row.2[place]? = some value
            → other.2[place]? = some otherValue
            → value ≠ []
            → otherValue ≠ []
            → value = otherValue

end MosLayout

end Emwin.Parser
