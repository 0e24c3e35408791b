import Emwin.Parser.Support

/-! Wind and hail tags: the old combined form and the lines with one tag each. -/

namespace Emwin.Parser
open Library

/-- One match of the pattern for the combined form, with its groups. -/
structure LegacyMatch where
  raw : Text
  windComparison : Option Text
  windValue : Option Text
  windUnits : Option Text
  hailComparison : Option Text
  hailValue : Option Text
  deriving DecidableEq, Repr

section Entries

variable {F : Type} [Measure F]

def windHailIssue (code message : String) (raw : Text) : ProductParseIssue :=
  .new "wind_hail_parse" code (quoting message raw) (some raw)

def invalidWindHailIssue (raw : Text) : ProductParseIssue :=
  windHailIssue "invalid_wind_hail_format" "could not parse wind/hail line" raw

def invalidNumericIssue (code : String) (raw : Text) : ProductParseIssue :=
  windHailIssue code "could not parse wind/hail value from line" raw

/-- The two entries of a match, or an issue if a number is not one. -/
def legacyEntries (found : LegacyMatch) : Except ProductParseIssue (List (WindHailEntry F)) :=
  match found.windValue.bind Measure.parse, found.windUnits.map toAsciiUppercase,
      found.hailValue.bind Measure.parse with
  | some windValue, some windUnits, some hailValue =>
      .ok
        [⟨.legacyWind, some windValue, some windUnits, found.windComparison.bind List.head?⟩,
         ⟨.legacyHail, some hailValue, some "IN".toList, found.hailComparison.bind List.head?⟩]
  | _, _, _ => .error (invalidWindHailIssue found.raw)

def parseLegacyWindHail (legacyMatches : Text → List LegacyMatch) (text : Text)
    : List (WindHailEntry F) × List ProductParseIssue :=
  let (entries, issues) := collectResults ((legacyMatches text).map legacyEntries)
  (entries.flatten, issues)

def normalizeModernLabel (label : Text) : Text :=
  (label.filter fun c => !isWhitespace c).map asciiUppercase

theorem length_stripSuffix {mark text rest : Text} (nonempty : mark ≠ [])
    (found : stripSuffix mark text = some rest)
    : rest.length < text.length := by
  unfold stripSuffix at found
  split at found
  · next suffix =>
      obtain rfl := Option.some.inj found
      have positive := List.length_pos_iff.mpr nonempty
      have fits := suffix.length_le
      rw [List.length_take]
      omega
  · cases found

theorem length_trimEnd_le (text : Text) : (trimEnd text).length ≤ text.length := by
  rw [trimEnd, trimEndWhile, List.length_reverse]
  exact (List.dropWhile_sublist _).length_le.trans (by simp)

/-- Trailing `$$` and `&&` removed, as often as they are there. -/
def stripTerminators (text : Text) : Text :=
  match _ : stripSuffix "$$".toList text with
  | some rest => stripTerminators (trimEnd rest)
  | none =>
      match _ : stripSuffix "&&".toList text with
      | some rest => stripTerminators (trimEnd rest)
      | none => text
termination_by text.length
decreasing_by
  · exact (length_trimEnd_le rest).trans_lt (length_stripSuffix (List.cons_ne_nil _ _) ‹_›)
  · exact (length_trimEnd_le rest).trans_lt (length_stripSuffix (List.cons_ne_nil _ _) ‹_›)

def isTrailingPunctuation (c : Char) : Bool := c = '.' || c = ',' || c = ';' || c = ':'

def normalizeModernValue (value : Text) : Text :=
  trimEnd (trimEndWhile isTrailingPunctuation (stripTerminators (trim value)))

/-- The byte offset of the first character that meets a test. -/
def findOffset (test : Char → Bool) (text : Text) : Option Nat :=
  if text.any test then some (utf8Len (text.takeWhile fun c => !test c)) else none

def splitNumericAndUnits (value : Text) (allowedUnits : List Text)
    : Except Panic (Option (Text × Text)) :=
  match splitWhitespace value with
  | [] => return none
  | [first] =>
      match (findOffset Char.isAlpha first).filter (0 < ·) with
      | none => return none
      | some splitIndex => do
          let numeric ← sliceTo splitIndex first
          let units ← sliceFrom splitIndex first
          return (allowedUnits.find? (· = toAsciiUppercase units)).map (numeric, ·)
  | [first, second] =>
      return (allowedUnits.find? (· = toAsciiUppercase second)).map (first, ·)
  | _ => return none

/-- A comparison sign in front, and the rest. -/
def splitComparison (value : Text) : Except Panic (Option Char × Text) :=
  match value.head? with
  | some '<' | some '>' => do
      let rest ← sliceFrom 1 value
      return (value.head?, trim rest)
  | _ => return (none, value)

def parseNumericValue (value : Text) (kind : WindHailKind) (allowedUnits : List Text)
    (errorCode : String) (raw : Text)
    : Except Panic (Except ProductParseIssue (WindHailEntry F)) := do
  let (comparison, remainder) ← splitComparison (normalizeModernValue value)
  match ← splitNumericAndUnits remainder allowedUnits with
  | none => return .error (invalidNumericIssue errorCode raw)
  | some (numericStr, units) =>
      match Measure.parse numericStr with
      | none => return .error (invalidNumericIssue errorCode raw)
      | some numericValue => return .ok ⟨kind, some numericValue, some units, comparison⟩

/-- `split_once` at three dots. -/
def splitDots (line : Text) : Option (Text × Text) :=
  (windowPosition "...".toList line).map fun index => (line.take index, line.drop (index + 3))

def parseModernWindHailLine (line : Text)
    : Except Panic (Except ProductParseIssue (Option (WindHailEntry F))) :=
  if line = [] ∨ ¬ "...".toList <:+: line then return .ok none
  else
    match splitDots line with
    | none => return .error (invalidWindHailIssue line)
    | some (label, value) =>
        let label := normalizeModernLabel label
        let value := trim value
        if label = "HAILTHREAT".toList then return .ok (some ⟨.hailThreat, none, none, none⟩)
        else if label = "WINDTHREAT".toList then return .ok (some ⟨.windThreat, none, none, none⟩)
        else if label = "HAIL".toList ∨ label = "MAXHAILSIZE".toList then do
          let entry ← parseNumericValue value .maxHailSize ["IN".toList]
            "invalid_wind_hail_hail_value" line
          return entry.map some
        else if label = "WIND".toList ∨ label = "MAXWINDGUST".toList then do
          let entry ← parseNumericValue value .maxWindGust ["MPH".toList, "KTS".toList]
            "invalid_wind_hail_wind_value" line
          return entry.map some
        else return .ok none

def parseWindHailEntriesWithIssues (legacyMatches : Text → List LegacyMatch) (text : Text)
    : Except Panic (List (WindHailEntry F) × List ProductParseIssue) := do
  let (legacy, legacyIssues) := parseLegacyWindHail legacyMatches text
  let results ← (lines text).mapM fun rawLine => parseModernWindHailLine (trim rawLine)
  let (entries, issues) := collectResults results
  return (legacy ++ entries.filterMap id, legacyIssues ++ issues)

-----------------------------------------------------------------------------------------
-- No panic
-----------------------------------------------------------------------------------------

/-- A found character stands at a boundary. -/
theorem exists_split_of_findOffset {test : Char → Bool} {text : Text} {offset : Nat}
    (found : findOffset test text = some offset)
    : ∃ front back, text = front ++ back ∧ utf8Len front = offset := by
  unfold findOffset at found
  split at found
  · obtain rfl := Option.some.inj found
    exact ⟨_, _, List.takeWhile_append_dropWhile.symm, rfl⟩
  · cases found

theorem returns_splitNumericAndUnits (value : Text) (allowedUnits : List Text)
    : Returns (splitNumericAndUnits value allowedUnits) := by
  unfold splitNumericAndUnits
  split
  · exact returns_pure _
  · next first _ =>
      split
      · exact returns_pure _
      · next splitIndex found =>
          have offset := (Option.filter_eq_some_iff.mp found).1
          obtain ⟨front, back, rfl, rfl⟩ := exists_split_of_findOffset offset
          rw [sliceTo_append, sliceFrom_append]
          exact returns_pure _
  · exact returns_pure _
  · exact returns_pure _

theorem returns_splitComparison (value : Text) : Returns (splitComparison value) := by
  have signed {c : Char} (size : c.utf8Size = 1) (first : value.head? = some c)
      : Returns (sliceFrom 1 value) := by
    obtain ⟨rest, rfl⟩ := List.head?_eq_some_iff.mp first
    refine ⟨rest, sliceFrom_eq_ok_iff.mpr ⟨[c], rfl, ?_⟩⟩
    simp [utf8Len, size]
  unfold splitComparison
  split
  · next first => exact (signed rfl first).bind fun _ _ => returns_pure _
  · next first => exact (signed rfl first).bind fun _ _ => returns_pure _
  · exact returns_pure _

theorem returns_parseNumericValue (value : Text) (kind : WindHailKind) (allowedUnits : List Text)
    (errorCode : String) (raw : Text)
    : Returns (parseNumericValue (F := F) value kind allowedUnits errorCode raw) := by
  refine (returns_splitComparison _).bind fun parts _ => ?_
  refine (returns_splitNumericAndUnits _ _).bind fun found _ => ?_
  cases found with
  | none => exact returns_pure _
  | some pair =>
      dsimp only
      split <;> exact returns_pure _

theorem returns_parseModernWindHailLine (line : Text)
    : Returns (parseModernWindHailLine (F := F) line) := by
  unfold parseModernWindHailLine
  split
  · exact returns_pure _
  · split
    · exact returns_pure _
    · dsimp only
      split_ifs
      · exact returns_pure _
      · exact returns_pure _
      · exact (returns_parseNumericValue ..).bind fun _ _ => returns_pure _
      · exact (returns_parseNumericValue ..).bind fun _ _ => returns_pure _
      · exact returns_pure _

/-- Tags are read from every text. -/
theorem returns_parseWindHailEntriesWithIssues (legacyMatches : Text → List LegacyMatch)
    (text : Text)
    : Returns (parseWindHailEntriesWithIssues (F := F) legacyMatches text) := by
  have modern : Returns ((lines text).mapM fun rawLine =>
      parseModernWindHailLine (F := F) (trim rawLine)) :=
    returns_mapM_iff.mpr fun line _ => returns_parseModernWindHailLine _
  exact modern.bind fun _ _ => returns_pure _

end Entries

end Emwin.Parser
