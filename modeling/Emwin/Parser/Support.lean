import Emwin.Library.Spans
import Emwin.Parser.Body

/-! Helpers that the body extractors share: issues, marker search, slash-delimited candidates,
and what is used of dates and of numbers.
-/

namespace Emwin.Parser
open Library

/-- A problem found while a product is enriched; it does not stop the enrichment. -/
structure ProductParseIssue where
  kind : Text
  code : Text
  message : Text
  line : Option Text
  deriving DecidableEq, Repr

def ProductParseIssue.new (kind code : String) (message : Text) (line : Option Text)
    : ProductParseIssue :=
  ⟨kind.toList, code.toList, message, line⟩

/-- A message that quotes the source between backticks. -/
def quoting (message : String) (raw : Text) : Text :=
  message.toList ++ ": `".toList ++ raw ++ "`".toList

/-- What the extractors use of the calendar of the `chrono` crate. -/
structure Calendar where
  /-- `NaiveDateTime::parse_from_str` with the format `%y%m%dT%H%MZ`, read as UTC. -/
  parseCompact : Text → Option UtcTime
  year : UtcTime → Int
  month : UtcTime → Nat
  yearInRange : ∀ time, -262143 ≤ year time ∧ year time ≤ 262142
  monthInRange : ∀ time, 1 ≤ month time ∧ month time ≤ 12
  /-- The time of `NaiveDate::from_ymd_opt` and `NaiveTime::from_hms_opt` with no seconds. -/
  timeOf : (year : Int) → (month day hour minute : Nat) → Option UtcTime
  /-- The time of a clock reading on the date of a time, moved by some days if the calendar
  goes that far.
  -/
  clockOn : (base : UtcTime) → (days : Int) → (hour minute : Nat) → Option UtcTime

/-- What the extractors use of `f64`. -/
class Measure (F : Type) extends Add F, Sub F, Mul F, Div F, Neg F, NatCast F where
  lessThan : F → F → Bool
  same : F → F → Bool
  /-- `str::parse`. -/
  parse : Text → Option F
  /-- Written with a number of decimal places. -/
  format : Nat → F → Text

def isAsciiWhitespace (c : Char) : Bool :=
  c = ' ' || c = '\t' || c = '\n' || c = '\x0C' || c = '\r'

def isAsciiControl (c : Char) : Bool := c.toNat < 32 || c.toNat = 127

/-- `strip_prefix` of a delimiter, then `strip_suffix` of it. -/
def stripDelimiters (delimiter : Char) : Text → Option Text
  | [] => none
  | first :: rest =>
      if first = delimiter ∧ rest.getLast? = some delimiter then some rest.dropLast else none

/-- `str::strip_prefix`. -/
def stripPrefix (front text : Text) : Option Text :=
  if front <+: text then some (text.drop front.length) else none

/-- `str::strip_suffix`. -/
def stripSuffix (suffix text : Text) : Option Text :=
  if suffix <:+ text then some (text.take (text.length - suffix.length)) else none

/-- `str::trim_matches` of one character. -/
def trimMatches (c : Char) (text : Text) : Text := trimEndWhile (· = c) (text.dropWhile (· = c))

/-- `text.get(start..stop)`. -/
def getSlice (start stop : Nat) (text : Text) : Option Text := do
  let (front, _) ← splitOff stop text
  let (_, back) ← splitOff start front
  return back

/-- A slice read as a `u32`. -/
def sliceNumber (start stop : Nat) (text : Text) : Except Panic (Option Nat) := do
  let digits ← slice start stop text
  return parseUnsigned (2 ^ 32) digits

/-- A slice read as an `f64`. -/
def sliceMeasure (F : Type) [Measure F] (start stop : Nat) (text : Text)
    : Except Panic (Option F) := do
  let part ← slice start stop text
  return Measure.parse part

/-- What the candidates were read as, and the issues of those that could not be read. -/
def collectResults {α : Type} (results : List (Except ProductParseIssue α))
    : List α × List ProductParseIssue :=
  (results.filterMap Except.toOption,
    results.filterMap fun
      | .error issue => some issue
      | .ok _ => none)

def byteUppercase (byte : UInt8) : UInt8 := if 97 ≤ byte && byte ≤ 122 then byte - 32 else byte

/-- Where a text has another one, up to the case of ASCII letters. -/
def asciiFindCaseInsensitive (haystack needle : Text) : Option Nat :=
  windowPosition ((toUtf8 needle).map byteUppercase) ((toUtf8 haystack).map byteUppercase)

/-- A heading: dots, a slash in front, or a first word of at least three capitals. -/
def looksLikeHeading (trimmed : Text) : Bool :=
  "...".toList <:+: trimmed || trimmed.head? = some '/'
  || (splitWhitespace trimmed).head?.any fun token => token.all Char.isUpper && 3 ≤ utf8Len token

/-- `starts_new_section_header` of the coordinate blocks, by their test for coordinate lines. -/
def headsNewSection (looksLikeCoordinateLine : Text → Bool) (line : Text) : Bool :=
  let trimmed := trim line
  trimmed ≠ [] && !looksLikeCoordinateLine trimmed && looksLikeHeading trimmed

/-- `consume_coordinate_token` of the coordinate blocks: words joined until they have four to
eight bytes and pass a test, and the number of words behind the first one.
-/
def consumeWords (accepts : Text → Bool) (token first : Text) : List Text → Option (Text × Nat)
  | [] =>
      let token := token ++ trim first
      if 4 ≤ utf8Len token ∧ utf8Len token ≤ 8 ∧ accepts token then some (token, 0) else none
  | next :: rest =>
      let token := token ++ trim first
      if 4 ≤ utf8Len token ∧ utf8Len token ≤ 8 then
        if accepts token then some (token, 0) else none
      else if 8 < utf8Len token then none
      else (consumeWords accepts token next rest).map fun (word, taken) => (word, taken + 1)

/-- The byte of a slash. -/
def slashByte : UInt8 := 47

/-- The candidate at the place of a slash. The search for its end goes on over line ends. -/
def slashCandidate (text : Text) (start : Nat) : Except Panic (Option Text) := do
  let rest ← sliceFrom start text
  match (memchrIter slashByte (toUtf8 rest)).find? (1 ≤ ·) with
  | none => return none
  | some endRel =>
      let candidate ← slice start (start + endRel + 1) text
      return some candidate

def scanSlashDelimitedCandidates (predicate : Text → Bool) (text : Text)
    : Except Panic (List Text) := do
  let candidates ← (memchrIter slashByte (toUtf8 text)).mapM (slashCandidate text)
  return (candidates.filterMap id).filter predicate

section Wkt

variable {F : Type} [Measure F]

def formatLinestringWkt : List (F × F) → Text
  | [(lat, lon)] =>
      "POINT(".toList ++ Measure.format 4 lon ++ " ".toList ++ Measure.format 4 lat ++ ")".toList
  | points =>
      "LINESTRING(".toList
      ++ ", ".toList.intercalate (points.map fun (lat, lon) =>
          Measure.format 4 lon ++ " ".toList ++ Measure.format 4 lat)
      ++ ")".toList

def formatPolygonWkt (points : List (F × F)) : Text :=
  "POLYGON((".toList
  ++ ", ".toList.intercalate (points.map fun (lat, lon) =>
      Measure.format 6 lon ++ " ".toList ++ Measure.format 6 lat)
  ++ "))".toList

end Wkt

-----------------------------------------------------------------------------------------
-- Markers
-----------------------------------------------------------------------------------------

theorem getSlice_append (front middle back : Text)
    : getSlice (utf8Len front) (utf8Len (front ++ middle)) (front ++ middle ++ back)
      = some middle := by
  simp only [getSlice, splitOff_append, Option.bind_eq_bind, Option.bind_some]
  rfl

theorem getSlice_zero_eq_some {stop : Nat} {text front : Text}
    (found : getSlice 0 stop text = some front)
    : ∃ back, text = front ++ back ∧ utf8Len front = stop := by
  rw [getSlice, Option.bind_eq_bind, Option.bind_eq_some_iff] at found
  obtain ⟨⟨whole, back⟩, split, found⟩ := found
  have same : splitOff 0 whole = some ([], whole) := splitOff_append [] whole
  simp only [same, Option.bind_some, pure, Option.some.injEq] at found
  obtain rfl := found
  obtain ⟨rfl, size⟩ := splitOff_eq_some split
  exact ⟨back, rfl, size⟩

theorem getSlice_eq_none {stop : Nat} {text : Text} (short : utf8Len text < stop) (start : Nat)
    : getSlice start stop text = none := by
  have outside : splitOff stop text = none := by
    rw [← Option.not_isSome_iff_eq_none, splitOff_isSome_iff]
    rintro ⟨front, back, rfl, rfl⟩
    rw [utf8Len_append] at short
    omega
  rw [getSlice, outside]
  rfl

theorem trimMatches_eq_self {c : Char} {text : Text} (free : c ∉ text)
    : trimMatches c text = text := by
  have kept {text : Text} (free : c ∉ text) : text.dropWhile (· = c) = text := by
    cases text with
    | nil => rfl
    | cons first rest =>
        have other : first ≠ c := fun same => free (by simp [same])
        simp [other]
  rw [trimMatches, kept free, trimEndWhile, kept (by simpa using free), List.reverse_reverse]

theorem trimMatches_cons {c : Char} {text : Text} (free : c ∉ text)
    : trimMatches c (c :: text) = text := by
  have kept := trimMatches_eq_self free
  rw [trimMatches] at kept ⊢
  rwa [List.dropWhile_cons_of_pos (by simp)]

theorem stripPrefix_append (front rest : Text) : stripPrefix front (front ++ rest) = some rest := by
  simp [stripPrefix]

theorem stripSuffix_append (rest suffix : Text) : stripSuffix suffix (rest ++ suffix) = some rest := by
  simp [stripSuffix]

theorem stripPrefix_eq_some {front text rest : Text} (found : stripPrefix front text = some rest)
    : text = front ++ rest := by
  rw [stripPrefix] at found
  split at found
  · next starts =>
      obtain ⟨behind, rfl⟩ := starts
      obtain rfl := Option.some.inj found
      simp
  · cases found

theorem stripSuffix_eq_some {suffix text rest : Text} (found : stripSuffix suffix text = some rest)
    : text = rest ++ suffix := by
  rw [stripSuffix] at found
  split at found
  · next ends =>
      obtain ⟨front, rfl⟩ := ends
      obtain rfl := Option.some.inj found
      simp
  · cases found

theorem ascii_of_byteUppercase {byte : UInt8} (ascii : byteUppercase byte < 0x80)
    : byte < 0x80 := by
  unfold byteUppercase at ascii
  split at ascii
  · next small =>
      simp only [Bool.and_eq_true, decide_eq_true_eq] at small
      exact UInt8.lt_of_le_of_lt small.2 (by decide)
  · exact ascii

/-- Bytes of ASCII behind a boundary are characters, by induction on them. -/
theorem exists_ascii_text {text : Text} {before bytes after : Bytes}
    (whole : toUtf8 text = before ++ (bytes ++ after)) (nonempty : bytes ≠ [])
    (ascii : ∀ byte ∈ bytes, byte < 0x80)
    : ∃ front word back,
        text = front ++ (word ++ back) ∧ toUtf8 front = before ∧ toUtf8 word = bytes
        ∧ toUtf8 back = after := by
  induction bytes generalizing before text with
  | nil => exact absurd rfl nonempty
  | cons byte bytes ih =>
      obtain ⟨front, back, rfl, encoded, rest⟩ :=
        exists_ascii_char whole (ascii byte (by simp))
      have one : toUtf8 [Char.ofNat byte.toNat] = [byte] := by
        rw [toUtf8_cons, encode_ofNat (ascii byte (by simp))]
        rfl
      by_cases last : bytes = []
      · subst last
        exact ⟨front, [Char.ofNat byte.toNat], back, rfl, encoded, one, rest⟩
      · have more : toUtf8 back = [] ++ (bytes ++ after) := rest
        obtain ⟨none, word, tail, rfl, empty, same, final⟩ :=
          ih more last fun other member => ascii other (by simp [member])
        obtain rfl : none = [] := by
          have size := utf8Len_of_toUtf8 empty
          cases none with
          | nil => rfl
          | cons c none =>
              rw [utf8Len_cons] at size
              have := c.utf8Size_pos
              simp only [List.length_nil] at size
              omega
        refine ⟨front, Char.ofNat byte.toNat :: word, tail, by simp, encoded, ?_, final⟩
        rw [toUtf8_cons, encode_ofNat (ascii byte (by simp)), same]
        rfl

/-- A text is found at its start. -/
theorem asciiFind_prefix {needle haystack : Text} (starts : needle <+: haystack)
    : asciiFindCaseInsensitive haystack needle = some 0 := by
  obtain ⟨rest, rfl⟩ := starts
  refine windowPosition_of_start ?_
  rw [toUtf8_append, List.map_append]
  exact List.prefix_append _ _

/-- A marker of ASCII is found between characters. -/
theorem exists_marker {haystack needle : Text} {position : Nat}
    (nonempty : needle ≠ []) (ascii : ∀ byte ∈ toUtf8 needle, byteUppercase byte < 0x80)
    (found : asciiFindCaseInsensitive haystack needle = some position)
    : ∃ front word back,
        haystack = front ++ (word ++ back) ∧ utf8Len front = position
        ∧ (toUtf8 word).map byteUppercase = (toUtf8 needle).map byteUppercase := by
  have fits := (windowPosition_split found).2
  obtain ⟨tail, start⟩ := prefix_drop_of_windowPosition found
  rw [← List.map_drop, List.append_eq_map_iff] at start
  obtain ⟨bytes, after, split, same, -⟩ := start
  have whole := (List.take_append_drop position (toUtf8 haystack)).symm
  rw [split] at whole
  have some : bytes ≠ [] := by
    rintro rfl
    cases needle with
    | nil => exact nonempty rfl
    | cons c needle =>
        obtain ⟨lead, tail, shape, -⟩ := utf8EncodeChar_shape c
        simp [toUtf8_cons, shape] at same
  have plain : ∀ byte ∈ bytes, byte < 0x80 := by
    intro byte member
    have upper : byteUppercase byte ∈ (toUtf8 needle).map byteUppercase :=
      same ▸ List.mem_map_of_mem member
    obtain ⟨other, inside, equal⟩ := List.mem_map.mp upper
    exact ascii_of_byteUppercase (equal ▸ ascii other inside)
  obtain ⟨front, word, back, rfl, before, encoded, -⟩ := exists_ascii_text whole some plain
  refine ⟨front, word, back, rfl, ?_, by rw [encoded, same]⟩
  rw [utf8Len_of_toUtf8 before, List.length_take]
  simp only [List.length_map] at fits
  omega

-----------------------------------------------------------------------------------------
-- Candidates
-----------------------------------------------------------------------------------------

theorem slashByte_ascii : slashByte < 0x80 := by decide

theorem slashByte_char : Char.ofNat slashByte.toNat = '/' := rfl

/-- The first slash, by its place and by what stands before it. -/
theorem head?_memchrIter_slash (text : Text)
    : (memchrIter slashByte (toUtf8 text)).head?
      = (splitOnce '/' text).map fun (inner, _) => utf8Len inner := by
  obtain ⟨inner, after, rfl, absent⟩ | absent := exists_first_or_not_mem '/' text
  · have before : memchrIter slashByte (toUtf8 inner) = [] :=
      memchrIter_eq_nil (not_mem_toUtf8 slashByte_ascii absent)
    rw [toUtf8_append, memchrIter_append, before, memchrIter_toUtf8_cons slashByte_ascii,
      splitOnce_append_cons after absent, if_pos slashByte_char.symm]
    simp [length_toUtf8]
  · rw [memchrIter_eq_nil (not_mem_toUtf8 slashByte_ascii absent), splitOnce_eq_none absent]
    rfl

/-- The candidate at a slash is the span to the next one. -/
theorem slashCandidate_eq (front rest : Text)
    : slashCandidate (front ++ '/' :: rest) (utf8Len front)
      = .ok ((splitOnce '/' rest).map fun (inner, _) => '/' :: (inner ++ ['/'])) := by
  have next : (memchrIter slashByte (toUtf8 ('/' :: rest))).find? (1 ≤ ·)
      = (splitOnce '/' rest).map fun (inner, _) => 1 + utf8Len inner := by
    have first := head?_memchrIter_slash rest
    rw [memchrIter_toUtf8_cons slashByte_ascii, if_pos slashByte_char.symm]
    cases found : splitOnce '/' rest with
    | none =>
        rw [found] at first
        simp [List.head?_eq_none_iff.mp first]
    | some parts =>
        rw [found] at first
        obtain ⟨places, same⟩ := List.head?_eq_some_iff.mp first
        have size : '/'.utf8Size = 1 := rfl
        simp [same, size]
  rw [slashCandidate, sliceFrom_append, ok_bind, next]
  obtain ⟨inner, after, rfl, absent⟩ | absent := exists_first_or_not_mem '/' rest
  · have cut := slice_append front ('/' :: (inner ++ ['/'])) after
    have size : utf8Len ('/' :: (inner ++ ['/'])) = 1 + utf8Len inner + 1 := by
      rw [utf8Len_cons, utf8Len_append]
      rfl
    simp only [List.cons_append, List.append_assoc, List.nil_append, size] at cut
    rw [splitOnce_append_cons after absent]
    simp only [Option.map_some]
    rw [Nat.add_assoc, cut]
    rfl
  · rw [splitOnce_eq_none absent]
    rfl

/-- The candidates are the spans that meet the test, by induction on the text. -/
theorem scanSlashDelimitedCandidates_eq (predicate : Text → Bool) (text : Text)
    : scanSlashDelimitedCandidates predicate text
      = .ok ((delimited '/' text).filter predicate) := by
  have scanned (front back : Text)
      : ∃ found,
          ((memchrIter slashByte (toUtf8 back)).map (utf8Len front + ·)).mapM
              (slashCandidate (front ++ back)) = .ok found
          ∧ found.filterMap id = delimited '/' back := by
    induction back generalizing front with
    | nil => exact ⟨[], rfl, rfl⟩
    | cons c back ih =>
        obtain ⟨found, later, spans⟩ := ih (front ++ [c])
        have size : utf8Len (front ++ [c]) = utf8Len front + c.utf8Size := by
          rw [utf8Len_append]
          rfl
        have shift (list : List Nat)
            : (list.map (c.utf8Size + ·)).map (utf8Len front + ·)
              = list.map (utf8Len (front ++ [c]) + ·) := by
          rw [List.map_map, size]
          exact List.map_congr_left fun place _ => by simp only [Function.comp_apply]; omega
        rw [List.append_assoc, List.singleton_append] at later
        rw [memchrIter_toUtf8_cons slashByte_ascii, slashByte_char, List.map_append, shift,
          delimited_cons]
        split
        · next same =>
            subst same
            refine ⟨(splitOnce '/' back).map (fun (inner, _) => '/' :: (inner ++ ['/'])) :: found,
              ?_, ?_⟩
            · rw [List.map_singleton, List.singleton_append, Nat.add_zero, List.mapM_cons,
                slashCandidate_eq, later]
              rfl
            · rw [← spans]
              cases splitOnce '/' back <;> rfl
        · exact ⟨found, later, spans⟩
  obtain ⟨found, all, spans⟩ := scanned [] text
  have whole : (memchrIter slashByte (toUtf8 text)).mapM (slashCandidate text) = .ok found := by
    simpa [utf8Len] using all
  rw [scanSlashDelimitedCandidates, whole, ← spans]
  rfl

end Emwin.Parser
