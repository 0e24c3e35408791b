import Emwin.Library.WordPrefixes
import Emwin.Parser.Taf
import Mathlib.Data.List.Find

/-! Forecasts as they are written: words in any layout, and what is made of the words. -/

namespace Emwin.Parser
open Library

/-- How a forecast is announced. -/
inductive TafHeading where
  | bare
  | routine
  | amended
  | corrected
  deriving DecidableEq, Repr

def TafHeading.words : TafHeading → List Text
  | .bare => []
  | .routine => ["TAF".toList]
  | .amended => ["TAF".toList, "AMD".toList]
  | .corrected => ["TAF".toList, "COR".toList]

def TafHeading.preamble : TafHeading → Preamble
  | .bare => routinePreamble
  | .routine => routinePreamble
  | .amended => amendedPreamble
  | .corrected => correctedPreamble

/-- The search for a heading reads on into the name of the station. -/
def TafHeading.Takes (heading : TafHeading) (station : Text) : Prop :=
  "TAF".toList <+: station
  ∨ heading = .routine ∧ ("AMD".toList <+: station ∨ "COR".toList <+: station)

instance (heading : TafHeading) (station : Text) : Decidable (heading.Takes station) :=
  inferInstanceAs (Decidable (_ ∨ _))

-----------------------------------------------------------------------------------------
-- Prefixes by their words
-----------------------------------------------------------------------------------------

/-- The words of the prefixes. -/
def tafPrefixWords : List (List Text × Preamble) :=
  [(["TAF".toList, "TAF".toList, "AMD".toList], amendedPreamble),
    (["TAF".toList, "TAF".toList, "COR".toList], correctedPreamble),
    (["TAF".toList, "AMD".toList, "TAF".toList, "AMD".toList], amendedPreamble),
    (["TAF".toList, "COR".toList, "TAF".toList, "COR".toList], correctedPreamble),
    (["TAF".toList, "AMD".toList, "TAF".toList], amendedPreamble),
    (["TAF".toList, "COR".toList, "TAF".toList], correctedPreamble),
    (["TAF".toList, "TAF".toList], routinePreamble),
    (["TAF".toList, "AMD".toList], amendedPreamble),
    (["TAF".toList, "COR".toList], correctedPreamble), (["TAF".toList], routinePreamble)]

theorem tafPrefixes_eq
    : tafPrefixes = tafPrefixWords.map fun (words, preamble) => (joinWords words, preamble) := by
  decide +kernel

/-- What is left behind a prefix and a blank. -/
def behindPrefix (size : Nat) (input : Text) : Text :=
  let rest := input.drop size
  if rest.head? = some ' ' then rest.tail else rest

/-- The prefix that is found, by the words of the input. -/
theorem parseTafPrefix_joinWords {words : List Text} (solid : ∀ word ∈ words, ' ' ∉ word)
    : parseTafPrefix (joinWords words)
      = (tafPrefixWords.find? fun (literals, _) => StartsWith literals words).map
          fun (literals, preamble) =>
            (preamble, behindPrefix (joinWords literals).length (joinWords words)) := by
  have same : (tafPrefixWords.find? fun entry => joinWords entry.1 <+: joinWords words)
      = tafPrefixWords.find? fun entry => StartsWith entry.1 words := by
    have agrees : ∀ entry ∈ tafPrefixWords, ∀ literal ∈ entry.1, literal ≠ [] ∧ ' ' ∉ literal := by
      decide +kernel
    refine List.find?_congr fun entry member => ?_
    rw [decide_eq_decide]
    exact joinWords_prefix_iff (agrees entry member) solid
  rw [parseTafPrefix, tafPrefixes_eq, List.find?_map, Option.map_map]
  exact congrArg (Option.map _) same

-----------------------------------------------------------------------------------------
-- Headers
-----------------------------------------------------------------------------------------

theorem isWord_of_isStationToken {station : Text} (isStation : isStationToken station = true)
    : IsWord station := by
  simp only [isStationToken, Bool.and_eq_true, decide_eq_true_eq, List.all_eq_true] at isStation
  obtain ⟨⟨least, -⟩, shown⟩ := isStation
  refine ⟨?_, fun c member => isWhitespace_of_isAlphanum (shown c member)⟩
  rintro rfl
  simp [utf8Len] at least

theorem length_of_isStationToken {station : Text} (isStation : isStationToken station = true)
    : 3 ≤ station.length ∧ station.length ≤ 4 := by
  simp only [isStationToken, Bool.and_eq_true, decide_eq_true_eq, List.all_eq_true] at isStation
  obtain ⟨⟨least, most⟩, shown⟩ := isStation
  have ascii : IsAscii station := fun c member => utf8Size_of_isAlphanum (shown c member)
  rw [ascii.utf8Len_eq] at least most
  exact ⟨least, most⟩

/-- A time of issue starts with a digit. -/
theorem exists_digit_of_isIssueTimeToken {issueTime : Text}
    (isIssueTime : isIssueTimeToken issueTime = true)
    : ∃ digit rest, issueTime = digit :: rest ∧ digit.isDigit = true := by
  simp only [isIssueTimeToken, Bool.and_eq_true, decide_eq_true_eq, List.all_eq_true]
    at isIssueTime
  obtain ⟨⟨size, ends⟩, digits⟩ := isIssueTime
  match issueTime with
  | [] => simp at ends
  | [_] =>
      obtain rfl := Option.some.inj ends
      exact absurd size (by decide)
  | digit :: second :: rest =>
      exact ⟨digit, second :: rest, rfl, digits digit (by simp)⟩

theorem isWord_of_isIssueTimeToken {issueTime : Text}
    (isIssueTime : isIssueTimeToken issueTime = true)
    : IsWord issueTime := by
  have starts := exists_digit_of_isIssueTimeToken isIssueTime
  simp only [isIssueTimeToken, Bool.and_eq_true, decide_eq_true_eq, List.all_eq_true]
    at isIssueTime
  obtain ⟨⟨-, ends⟩, digits⟩ := isIssueTime
  obtain ⟨digit, rest, rfl, -⟩ := starts
  refine ⟨by simp, fun c member => ?_⟩
  rw [← List.dropLast_append_getLast (by simp : digit :: rest ≠ [])] at member
  rcases List.mem_append.mp member with member | member
  · exact isWhitespace_of_isDigit (digits c member)
  · obtain rfl : c = 'Z' := by
      rw [List.mem_singleton.mp member]
      exact Option.some.inj ((List.getLast?_eq_some_getLast _).symm.trans ends)
    decide

/-- A time of issue is no station. -/
theorem isStationToken_issueTime {issueTime : Text}
    (isIssueTime : isIssueTimeToken issueTime = true)
    : isStationToken issueTime = false := by
  simp only [isIssueTimeToken, Bool.and_eq_true, decide_eq_true_eq] at isIssueTime
  simp [isStationToken, isIssueTime.1.1]

/-- What starts with a digit does not start with a capital letter. -/
theorem not_prefix_digit {digit : Char} (isDigit : digit.isDigit = true) {literal : Text}
    (capital : ∃ first ∈ literal.head?, first.isDigit = false) (rest : Text)
    : ¬ literal <+: digit :: rest := by
  rintro ⟨behind, same⟩
  obtain ⟨first, starts, notDigit⟩ := capital
  obtain ⟨others, rfl⟩ := List.head?_eq_some_iff.mp starts
  cases same
  simp [isDigit] at notDigit

/-- The words of the prefixes are none of the times of issue, and do not begin one. -/
theorem apart_of_isIssueTimeToken {issueTime : Text}
    (isIssueTime : isIssueTimeToken issueTime = true)
    : ∀ literal ∈ ["TAF".toList, "AMD".toList, "COR".toList],
        literal ≠ issueTime ∧ ¬ literal <+: issueTime := by
  obtain ⟨digit, rest, rfl, isDigit⟩ := exists_digit_of_isIssueTimeToken isIssueTime
  intro literal member
  have capital : ∃ first ∈ literal.head?, first.isDigit = false := by
    simp only [List.mem_cons, List.not_mem_nil, or_false] at member
    rcases member with rfl | rfl | rfl
    · exact ⟨'T', rfl, rfl⟩
    · exact ⟨'A', rfl, rfl⟩
    · exact ⟨'C', rfl, rfl⟩
  have front := not_prefix_digit isDigit capital rest
  exact ⟨fun same => front (same ▸ List.prefix_rfl), front⟩

theorem prefixWords_distinct
    : "TAF".toList ≠ "AMD".toList ∧ "TAF".toList ≠ "COR".toList
      ∧ "AMD".toList ≠ "COR".toList ∧ "COR".toList ≠ "AMD".toList := by
  decide

/-- What is found of a heading that goes on into the station. -/
theorem find_tafPrefixWords_takes {heading : TafHeading} {station issueTime : Text}
    (more : List Text) (isIssueTime : isIssueTimeToken issueTime = true)
    (takes : heading.Takes station)
    : ∃ word preamble,
        word <+: station ∧ word.length = 3
        ∧ (tafPrefixWords.find? fun (literals, _) =>
            StartsWith literals (heading.words ++ station :: issueTime :: more))
          = some (heading.words ++ [word], preamble) := by
  have apart := apart_of_isIssueTimeToken isIssueTime
  obtain ⟨otherTaf, notTaf⟩ := apart "TAF".toList (by simp)
  obtain ⟨otherAmd, notAmd⟩ := apart "AMD".toList (by simp)
  obtain ⟨otherCor, notCor⟩ := apart "COR".toList (by simp)
  obtain ⟨tafAmd, tafCor, amdCor, corAmd⟩ := prefixWords_distinct
  cases heading with
  | bare =>
      rcases takes with taken | ⟨same, -⟩
      · refine ⟨_, routinePreamble, taken, rfl, ?_⟩
        simp only [tafPrefixWords, TafHeading.words, StartsWith, List.find?_cons,
          List.nil_append, otherTaf, otherAmd, otherCor, notTaf, notAmd, notCor, taken,
          false_and, and_false, decide_false, decide_true]
      · cases same
  | routine =>
      by_cases first : "TAF".toList <+: station
      · refine ⟨_, routinePreamble, first, rfl, ?_⟩
        simp only [tafPrefixWords, TafHeading.words, StartsWith, List.find?_cons,
          List.cons_append, List.nil_append, otherTaf, notTaf, notAmd, notCor,
          first, false_and, and_false, true_and, decide_false, decide_true]
      by_cases second : "AMD".toList <+: station
      · refine ⟨_, amendedPreamble, second, rfl, ?_⟩
        simp only [tafPrefixWords, TafHeading.words, StartsWith, List.find?_cons,
          List.cons_append, List.nil_append, otherTaf, notTaf, notAmd, notCor,
          first, second, false_and, and_false, true_and, decide_false, decide_true]
      · have third : "COR".toList <+: station := by
          rcases takes with taken | ⟨-, taken | taken⟩
          · exact absurd taken first
          · exact absurd taken second
          · exact taken
        refine ⟨_, correctedPreamble, third, rfl, ?_⟩
        simp only [tafPrefixWords, TafHeading.words, StartsWith, List.find?_cons,
          List.cons_append, List.nil_append, otherTaf, notTaf, notAmd, notCor,
          first, second, third, false_and, and_false, true_and, decide_false, decide_true]
  | amended =>
      rcases takes with taken | ⟨same, -⟩
      · refine ⟨_, amendedPreamble, taken, rfl, ?_⟩
        simp only [tafPrefixWords, TafHeading.words, StartsWith, List.find?_cons,
          List.cons_append, List.nil_append, notAmd, notCor,
          tafAmd, corAmd, taken, false_and, and_false, true_and, decide_false,
          decide_true]
      · cases same
  | corrected =>
      rcases takes with taken | ⟨same, -⟩
      · refine ⟨_, correctedPreamble, taken, rfl, ?_⟩
        simp only [tafPrefixWords, TafHeading.words, StartsWith, List.find?_cons,
          List.cons_append, List.nil_append, notAmd, notCor,
          tafCor, amdCor, taken, false_and, and_false, true_and, decide_false,
          decide_true]
      · cases same

/-- What is found of a heading that ends before the station. -/
theorem find_tafPrefixWords_free {heading : TafHeading} {station issueTime : Text}
    (more : List Text) (isIssueTime : isIssueTimeToken issueTime = true)
    (free : ¬ heading.Takes station)
    : (tafPrefixWords.find? fun (literals, _) =>
        StartsWith literals (heading.words ++ station :: issueTime :: more))
      = if heading = .bare then none else some (heading.words, heading.preamble) := by
  have apart := apart_of_isIssueTimeToken isIssueTime
  obtain ⟨otherTaf, notTaf⟩ := apart "TAF".toList (by simp)
  obtain ⟨otherAmd, notAmd⟩ := apart "AMD".toList (by simp)
  obtain ⟨otherCor, notCor⟩ := apart "COR".toList (by simp)
  obtain ⟨tafAmd, tafCor, amdCor, corAmd⟩ := prefixWords_distinct
  cases heading with
  | bare =>
      simp only [TafHeading.Takes, not_or] at free
      simp only [tafPrefixWords, TafHeading.words, StartsWith, List.find?_cons, List.find?_nil,
        List.nil_append, otherTaf, otherAmd, otherCor, notTaf, notAmd, notCor, free, false_and,
        and_false, decide_false, if_true]
  | routine =>
      simp only [TafHeading.Takes, not_or, true_and] at free
      simp only [tafPrefixWords, TafHeading.words, StartsWith, List.find?_cons,
        List.cons_append, List.nil_append, otherTaf, notTaf, notAmd, notCor,
        free, List.prefix_rfl, false_and, and_false, decide_false, decide_true,
        reduceCtorEq, if_false]
      rfl
  | amended =>
      simp only [TafHeading.Takes, not_or] at free
      simp only [tafPrefixWords, TafHeading.words, StartsWith, List.find?_cons,
        List.cons_append, List.nil_append, notAmd, notCor,
        tafAmd, corAmd, free, List.prefix_rfl, false_and, and_false, true_and, decide_false,
        decide_true, reduceCtorEq, if_false]
      rfl
  | corrected =>
      simp only [TafHeading.Takes, not_or] at free
      simp only [tafPrefixWords, TafHeading.words, StartsWith, List.find?_cons,
        List.cons_append, List.nil_append, notAmd, notCor,
        tafCor, amdCor, free, List.prefix_rfl, false_and, and_false, true_and, decide_false,
        decide_true, reduceCtorEq, if_false]
      rfl

section Header

variable {station issueTime : Text} (isStation : isStationToken station = true)
  (isIssueTime : isIssueTimeToken issueTime = true)
include isStation isIssueTime

omit isStation isIssueTime in
theorem stripLeadingMarkerLine_joinWords {first : Text} (solid : ' ' ∉ first) (second : Text)
    (rest : List Text)
    (stays : utf8Len first ≤ 3 ∨ ¬ "TAF".toList <+: joinWords (second :: rest))
    : stripLeadingMarkerLine (joinWords (first :: second :: rest))
      = joinWords (first :: second :: rest) := by
  rw [joinWords_cons_cons, stripLeadingMarkerLine, splitOnce_append_cons _ solid]
  refine if_neg ?_
  rintro ⟨long, -, -, front⟩
  rcases stays with short | other
  · omega
  · exact other front

/-- No marker line is stripped from a report on its own. -/
theorem stripLeadingMarkerLine_words (heading : TafHeading) (more : List Text)
    : stripLeadingMarkerLine (joinWords (heading.words ++ station :: issueTime :: more))
      = joinWords (heading.words ++ station :: issueTime :: more) := by
  have short : utf8Len "TAF".toList ≤ 3 := by decide
  have solid : ' ' ∉ "TAF".toList := by decide
  cases heading with
  | bare =>
      refine stripLeadingMarkerLine_joinWords ?_ issueTime more (.inr ?_)
      · exact fun blank => absurd ((isWord_of_isStationToken isStation).visible ' ' blank) (by decide)
      · obtain ⟨digit, rest, rfl, isDigit⟩ := exists_digit_of_isIssueTimeToken isIssueTime
        obtain ⟨behind, split⟩ := prefix_joinWords (digit :: rest) more
        rw [← split]
        exact not_prefix_digit isDigit ⟨'T', rfl, rfl⟩ (rest ++ behind)
  | routine => exact stripLeadingMarkerLine_joinWords solid _ _ (.inl short)
  | amended => exact stripLeadingMarkerLine_joinWords solid _ _ (.inl short)
  | corrected => exact stripLeadingMarkerLine_joinWords solid _ _ (.inl short)

omit isStation isIssueTime in
theorem nextToken_joinWords {word : Text} (shown : word ≠ []) (solid : ' ' ∉ word)
    (rest : List Text)
    : nextToken (joinWords (word :: rest)) = some (word, joinWords rest) := by
  cases rest with
  | nil =>
      rw [nextToken, joinWords, List.intercalate_singleton, if_neg shown, splitOnce_eq_none solid]
      rfl
  | cons second rest =>
      rw [nextToken, joinWords_cons_cons, if_neg (by simp), splitOnce_append_cons _ solid]

omit isStation isIssueTime in
theorem joinWords_append (first second : Text) (left right : List Text)
    : joinWords ((first :: left) ++ second :: right)
      = joinWords (first :: left) ++ ' ' :: joinWords (second :: right) := by
  rw [List.cons_append, joinWords_cons, joinWords_cons, joinWords_cons, List.flatMap_append,
    List.flatMap_cons, List.append_assoc, List.cons_append]

omit isStation isIssueTime in
theorem behindPrefix_append (front rest : Text)
    : behindPrefix front.length (front ++ ' ' :: rest) = rest := by
  rw [behindPrefix, List.drop_left]
  rfl

/-- Behind a prefix that goes on into the station there is no station. -/
theorem nextToken_behind_station {word : Text} (front : word <+: station)
    (size : word.length = 3) (more : List Text)
    : ∃ token input,
        nextToken (behindPrefix 3 (joinWords (station :: issueTime :: more))) = some (token, input)
        ∧ isStationToken token = false := by
  obtain ⟨behind, rfl⟩ := front
  have length := length_of_isStationToken isStation
  have isWord := isWord_of_isStationToken isStation
  have issueWord := isWord_of_isIssueTimeToken isIssueTime
  have solidIssue : ' ' ∉ issueTime := fun blank =>
    absurd (issueWord.visible ' ' blank) (by decide)
  have split : (joinWords ((word ++ behind) :: issueTime :: more)).drop 3
      = behind ++ ' ' :: joinWords (issueTime :: more) := by
    rw [joinWords_cons_cons, List.append_assoc, ← size, List.drop_left]
  rw [behindPrefix, split]
  match behind, length, isWord with
  | [], _, _ =>
      exact ⟨issueTime, joinWords more, nextToken_joinWords issueWord.nonempty solidIssue more,
        isStationToken_issueTime isIssueTime⟩
  | [c], _, isWord =>
      have other : c ≠ ' ' := by
        rintro rfl
        exact absurd (isWord.visible ' ' (by simp)) (by decide)
      refine ⟨[c], joinWords (issueTime :: more), ?_, ?_⟩
      · rw [if_neg (by simpa using other), ← joinWords_cons_cons]
        exact @nextToken_joinWords [c] (by simp) (by simpa using other.symm) _
      · have size : utf8Len [c] = 1 ∨ c.isAlphanum = false := by
          by_cases shown : c.isAlphanum = true
          · exact .inl (by simp [utf8Len, utf8Size_of_isAlphanum shown])
          · exact .inr (by simpa using shown)
        rcases size with size | size
        · simp [isStationToken, size]
        · simp [isStationToken, size]
  | _ :: _ :: _, length, _ => simp at length; omega

omit isStation isIssueTime in
/-- The words of a heading are passed. -/
theorem behindPrefix_heading (heading : TafHeading) (word station : Text) (more : List Text)
    : behindPrefix (joinWords (heading.words ++ [word])).length
          (joinWords (heading.words ++ station :: more))
        = behindPrefix word.length (joinWords (station :: more)) := by
  have passes (first : Text) (left : List Text)
      : behindPrefix (joinWords (first :: left ++ [word])).length
          (joinWords (first :: left ++ station :: more))
        = behindPrefix word.length (joinWords (station :: more)) := by
    rw [joinWords_append, joinWords_append, behindPrefix, behindPrefix]
    have dropped : (joinWords (first :: left) ++ ' ' :: joinWords (station :: more)).drop
        (joinWords (first :: left) ++ ' ' :: joinWords [word]).length
        = (joinWords (station :: more)).drop word.length := by
      have single : (joinWords [word]).length = word.length := by simp [joinWords]
      rw [List.length_append, List.length_cons, single, List.drop_append]
      simp
    rw [dropped]
  cases heading with
  | bare => simp [TafHeading.words, joinWords]
  | routine => exact passes _ _
  | amended => exact passes _ _
  | corrected => exact passes _ _

omit isStation isIssueTime in
theorem solid_words (heading : TafHeading) {text : Text} {more : List Text}
    (words : tokens isAsciiWhitespace text = heading.words ++ station :: issueTime :: more)
    : ∀ word ∈ heading.words ++ station :: issueTime :: more, ' ' ∉ word := by
  intro word member blank
  rw [← words] at member
  exact absurd ((isToken_of_mem_tokens member).solid ' ' blank) (by decide)

/-- Nothing is read where the heading takes the station. -/
theorem parseTafBulletin_takes {heading : TafHeading} (takes : heading.Takes station)
    {text : Text} {more : List Text}
    (words : tokens isAsciiWhitespace text = heading.words ++ station :: issueTime :: more)
    : parseTafBulletin text = .ok none := by
  have solid := solid_words heading words
  obtain ⟨word, preamble, front, size, found⟩ :=
    find_tafPrefixWords_takes more isIssueTime takes
  obtain ⟨token, input, next, notStation⟩ :=
    nextToken_behind_station isStation isIssueTime front size more
  have preambleEq : tafPreamble (joinWords (heading.words ++ station :: issueTime :: more))
      = some (preamble, behindPrefix 3 (joinWords (station :: issueTime :: more))) := by
    rw [tafPreamble, parseTafPrefix_joinWords solid, found, ← size,
      ← behindPrefix_heading heading word]
    rfl
  rw [parseTafBulletin, compactAsciiWhitespace_eq, words,
    stripLeadingMarkerLine_words isStation isIssueTime]
  simp only [preambleEq, next, notStation]
  cases nextToken input with
  | none => rfl
  | some second => rfl

/-- The preamble of a report whose heading does not take the station. -/
theorem tafPreamble_words {heading : TafHeading} (free : ¬ heading.Takes station)
    {text : Text} {more : List Text}
    (words : tokens isAsciiWhitespace text = heading.words ++ station :: issueTime :: more)
    : tafPreamble (joinWords (heading.words ++ station :: issueTime :: more))
      = some (heading.preamble, joinWords (station :: issueTime :: more)) := by
  have found := find_tafPrefixWords_free more isIssueTime free
  rw [tafPreamble, parseTafPrefix_joinWords (solid_words heading words), found]
  have passes (first : Text) (left : List Text)
      : behindPrefix (joinWords (first :: left)).length
          (joinWords (first :: left ++ station :: issueTime :: more))
        = joinWords (station :: issueTime :: more) := by
    rw [joinWords_append, behindPrefix_append]
  cases heading with
  | bare =>
      have station' := isWord_of_isStationToken isStation
      have issueTime' := isWord_of_isIssueTimeToken isIssueTime
      have led : splitWhitespace (joinWords (station :: issueTime :: more))
          = station :: issueTime :: more.flatMap splitWhitespace := by
        rw [splitWhitespace_joinWords_eq_flatMap, List.flatMap_cons, List.flatMap_cons,
          station'.splitWhitespace_eq, issueTime'.splitWhitespace_eq]
        rfl
      simp [TafHeading.words, TafHeading.preamble, looksLikeStationLedTafReport, led, isStation,
        isIssueTime]
  | routine => exact congrArg (fun rest => some (routinePreamble, rest)) (passes _ _)
  | amended => exact congrArg (fun rest => some (amendedPreamble, rest)) (passes _ _)
  | corrected => exact congrArg (fun rest => some (correctedPreamble, rest)) (passes _ _)

end Header

-----------------------------------------------------------------------------------------
-- Readings
-----------------------------------------------------------------------------------------

/-- What a group is read as, without the text that it was read from. -/
structure TafGroupReading where
  changeKind : TafForecastGroupKind
  validFrom : Option Text
  validTo : Option Text
  probabilityPercent : Option Nat
  conditions : TafConditions
  deriving DecidableEq, Repr

/-- What a report is read as, without the texts that it was read from. -/
structure TafReading where
  station : Text
  issueTime : Text
  validFrom : Option Text
  validTo : Option Text
  amendment : Bool
  correction : Bool
  initialConditions : TafConditions
  groups : List TafGroupReading
  deriving DecidableEq, Repr

def TafForecastGroup.reading (group : TafForecastGroup) : TafGroupReading where
  changeKind := group.changeKind
  validFrom := group.validFrom
  validTo := group.validTo
  probabilityPercent := group.probabilityPercent
  conditions := group.conditions

def TafBulletin.reading (bulletin : TafBulletin) : TafReading where
  station := bulletin.station
  issueTime := bulletin.issueTime
  validFrom := bulletin.validFrom
  validTo := bulletin.validTo
  amendment := bulletin.amendment
  correction := bulletin.correction
  initialConditions := bulletin.initialConditions
  groups := bulletin.groups.map TafForecastGroup.reading

def readTaf (text : Text) : Except Panic (Option TafReading) :=
  (fun bulletin => bulletin.map TafBulletin.reading) <$> parseTafBulletin text

/-- The conditions in front, and the groups behind them. -/
def readSegments (segments : List (List Text))
    : Except Panic (TafConditions × List TafGroupReading) := do
  let initial ← (segments.head?.map parseConditions).getD (return {})
  let groups ← (segments.drop 1).mapM parseGroup
  return (initial, (groups.filterMap id).map TafForecastGroup.reading)

theorem parseForecastGroups_reading (remainder : Text)
    : (fun (initial, groups) => (initial, groups.map TafForecastGroup.reading))
          <$> parseForecastGroups remainder
        = readSegments (cutAtMarkers (splitWhitespace remainder)) := by
  rw [parseForecastGroups]
  split
  · next empty =>
      subst empty
      rfl
  · rw [readSegments, map_bind]
    refine congrArg _ (funext fun initial => ?_)
    rw [map_bind]
    rfl

section Reading

variable {station issueTime : Text} (isStation : isStationToken station = true)
  (isIssueTime : isIssueTimeToken issueTime = true)
include isStation isIssueTime

theorem readTaf_takes {heading : TafHeading} (takes : heading.Takes station)
    {text : Text} {more : List Text}
    (words : tokens isAsciiWhitespace text = heading.words ++ station :: issueTime :: more)
    : readTaf text = .ok none := by
  rw [readTaf, parseTafBulletin_takes isStation isIssueTime takes words]
  rfl

/-- What is made of the words of a report. -/
theorem readTaf_words {heading : TafHeading} (free : ¬ heading.Takes station)
    {text third : Text} {rest : List Text}
    (words : tokens isAsciiWhitespace text
      = heading.words ++ station :: issueTime :: third :: rest)
    : readTaf text
      = (fun (initialConditions, groups) => some
          { station
            issueTime
            validFrom := (parseValidityRange third).map Prod.fst
            validTo := (parseValidityRange third).map Prod.snd
            amendment := heading.preamble.amendment
            correction := heading.preamble.correction
            initialConditions
            groups })
        <$> readSegments (cutAtMarkers (rest.flatMap splitWhitespace)) := by
  have solid := solid_words heading words
  have isToken (word : Text)
      (member : word ∈ heading.words ++ station :: issueTime :: third :: rest)
      : word ≠ [] := by
    rw [← words] at member
    exact (isToken_of_mem_tokens member).nonempty
  have shown (word : Text) (member : word ∈ [station, issueTime, third])
      : word ≠ [] ∧ ' ' ∉ word := by
    have inside : word ∈ heading.words ++ station :: issueTime :: third :: rest := by
      simp only [List.mem_cons, List.not_mem_nil, or_false] at member
      rcases member with rfl | rfl | rfl <;> simp
    exact ⟨isToken word inside, solid word inside⟩
  obtain ⟨someStation, solidStation⟩ := shown station (by simp)
  obtain ⟨someIssueTime, solidIssueTime⟩ := shown issueTime (by simp)
  obtain ⟨someThird, solidThird⟩ := shown third (by simp)
  rw [readTaf, parseTafBulletin, compactAsciiWhitespace_eq, words,
    stripLeadingMarkerLine_words isStation isIssueTime]
  simp only [tafPreamble_words isStation isIssueTime free words,
    nextToken_joinWords someStation solidStation, nextToken_joinWords someIssueTime solidIssueTime,
    nextToken_joinWords someThird solidThird, isStation, isIssueTime, Option.map_some,
    Option.getD_some, Option.bind_some, Bool.not_true, Bool.or_false, Bool.false_eq_true, if_false]
  have groups := parseForecastGroups_reading (trim (joinWords rest))
  rw [splitWhitespace_trim, splitWhitespace_joinWords_eq_flatMap] at groups
  rw [← groups]
  generalize parseForecastGroups (trim (joinWords rest)) = call
  cases call with
  | error panic => rfl
  | ok found => rfl

end Reading

end Emwin.Parser
