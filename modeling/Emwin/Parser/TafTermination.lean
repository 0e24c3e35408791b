import Emwin.Parser.TafChanges

/-! The end of a report: what stands behind its terminator is read as if it went on. -/

namespace Emwin.Parser
open Library

/-- A forecast as it is written. -/
structure TafReport where
  heading : TafHeading
  station : Text
  issueTime : Text
  validity : TafValidity
  conditions : List Text
  changes : List TafChange
  deriving DecidableEq, Repr

/-- The words behind the validity. -/
def TafReport.body (report : TafReport) : List Text :=
  report.conditions ++ report.changes.flatMap TafChange.words

def TafReport.words (report : TafReport) : List Text :=
  report.heading.words
  ++ report.station :: report.issueTime :: report.validity.text :: report.body

/-- A word of conditions is neither a terminator nor a marker. -/
structure IsConditionWord (word : Text) : Prop where
  isWord : IsWord word
  ascii : IsAscii word
  unended : '=' ∉ word
  unmarked : isGroupMarker word = false

instance (word : Text) : Decidable (IsConditionWord word) :=
  decidable_of_iff
    (IsWord word ∧ IsAscii word ∧ '=' ∉ word ∧ isGroupMarker word = false)
    ⟨fun ⟨isWord, ascii, unended, unmarked⟩ => ⟨isWord, ascii, unended, unmarked⟩,
      fun ⟨isWord, ascii, unended, unmarked⟩ => ⟨isWord, ascii, unended, unmarked⟩⟩

structure TafReport.IsWellFormed (report : TafReport) : Prop where
  station : isStationToken report.station = true
  issueTime : isIssueTimeToken report.issueTime = true
  conditions : ∀ word ∈ report.conditions, IsConditionWord word
  changes : ∀ change ∈ report.changes,
    change.conditions ≠ [] ∧ ∀ word ∈ change.conditions, IsConditionWord word

/-- The words of a report in any layout that ends with the last of them. -/
structure TafReport.IsWritten (report : TafReport) (text : Text) : Prop where
  words : tokens isAsciiWhitespace text = report.words
  ends : ∀ c ∈ text.getLast?, isAsciiWhitespace c = false

/-- The conditions that a report ends with. -/
def TafReport.lastConditions (report : TafReport) : List Text :=
  match report.changes.getLast? with
  | none => report.conditions
  | some change => change.conditions

/-- The last word with the terminator and what follows it up to a marker is read as the last
word alone, and no marker behind that heads a group.
-/
def TafReport.Undamaged (report : TafReport) (following : Text) : Prop :=
  ∃ init last,
    report.lastConditions = init ++ [last]
    ∧ let (damaged, groups) := markedGroups (splitWhitespace (last ++ '=' :: following))
      itemsRead (givenBy init) damaged = itemsRead (givenBy init) [last]
      ∧ ∀ segment ∈ groups, parseGroupHeader segment = none

-----------------------------------------------------------------------------------------
-- Conditions that go on
-----------------------------------------------------------------------------------------

/-- Words that go on conditions are told from them as far as one word goes. -/
theorem parseConditions_append_iff {front : List Text} {last : Text}
    (ascii : ∀ word ∈ front, IsAscii word) (asciiLast : IsAscii last) (words : List Text)
    : parseConditions (front ++ words) = parseConditions (front ++ [last])
      ↔ itemsRead (givenBy front) words = itemsRead (givenBy front) [last] := by
  obtain ⟨conditions, read⟩ := returns_foldlM_addTafToken ascii {}
  have given : conditions.given = givenBy front := given_of_parseConditions read
  have goesOn (words : List Text)
      : parseConditions (front ++ words)
        = (fun items => items.foldl TafConditions.add conditions)
          <$> itemsRead (givenBy front) words := by
    rw [parseConditions, List.foldlM_append, read, ← given]
    exact foldlM_addTafToken words conditions
  rw [goesOn, goesOn]
  obtain ⟨item, single⟩ := returns_readItem asciiLast (givenBy front)
  have few : itemsRead (givenBy front) [last] = .ok item.toList := by
    rw [itemsRead, single]
    cases item <;> rfl
  refine ⟨fun same => ?_, fun same => by rw [same]⟩
  cases items : itemsRead (givenBy front) words with
  | error panic =>
      rw [items, few] at same
      cases same
  | ok items' =>
      rw [items, few] at same
      have fits := fits_of_itemsRead items
      have fitsFew := fits_of_itemsRead few
      rw [← given] at fits fitsFew
      have atMost : item.toList.length ≤ 1 := by cases item <;> simp
      rw [eq_of_foldl_add fits fitsFew atMost (Except.ok.inj same), few]

-----------------------------------------------------------------------------------------
-- Words that give nothing
-----------------------------------------------------------------------------------------

/-- A word that ends with a digit gives nothing but the distance `9999`. -/
theorem givenBy_of_digit {word : Text} (far : word ≠ "9999".toList)
    (ends : ∃ c ∈ word.getLast?, c.isDigit = true)
    : givenBy [word] = ⟨false, false, false⟩ := by
  obtain ⟨c, last, digit⟩ := ends
  have other {suffix : Text} (shown : ∃ d ∈ suffix.getLast?, d.isDigit = false)
      : ¬ suffix <:+ word := by
    rintro ⟨front, rfl⟩
    obtain ⟨d, lastSuffix, letter⟩ := shown
    have same : (front ++ suffix).getLast? = some d := by
      rw [List.getLast?_append, lastSuffix]
      rfl
    rw [same] at last
    obtain rfl := Option.some.inj last
    rw [letter] at digit
    cases digit
  have notKnots : ¬ "KT".toList <:+ word := other ⟨'T', rfl, rfl⟩
  have notMiles : ¬ "SM".toList <:+ word := other ⟨'M', rfl, rfl⟩
  have notCavok : word ≠ "CAVOK".toList := fun same =>
    @other "CAVOK".toList ⟨'K', rfl, rfl⟩ (same ▸ List.suffix_rfl)
  have noWind : isTafWindToken word = false := by
    rw [isTafWindToken]
    split
    · next wind parsed => exact absurd (parseTafWind_spec parsed).1 notKnots
    · rfl
  have noVisibility : isTafVisibilityToken word = false := by
    simp only [isTafVisibilityToken, Bool.or_eq_false_iff, Bool.and_eq_false_iff,
      decide_eq_false_iff_not]
    exact ⟨⟨⟨notCavok, far⟩, notMiles⟩, .inr notMiles⟩
  have noShear : isWindShearToken word = false := by
    rw [isWindShearToken]
    split
    · next shear sheared => exact absurd (parseWindShear_spec sheared).1 notKnots
    · rfl
  simp [givenBy, noWind, noVisibility, noShear]

theorem givenBy_text (validity : TafValidity)
    : givenBy [validity.text] = ⟨false, false, false⟩ := by
  refine givenBy_of_digit ?_ ?_
  · intro same
    have inside : '/' ∈ validity.text := by simp [TafValidity.text]
    rw [same] at inside
    exact absurd inside (by decide)
  · obtain ⟨c, last⟩ : ∃ c, validity.validTo.text.getLast? = some c := by
      cases last : validity.validTo.text.getLast? with
      | none =>
          have size := validity.validTo.length
          rw [List.getLast?_eq_none_iff.mp last] at size
          cases size
      | some c => exact ⟨c, rfl⟩
    refine ⟨c, ?_, List.all_eq_true.mp validity.validTo.digits c (List.mem_of_getLast? last)⟩
    rw [TafValidity.text, List.getLast?_append, List.getLast?_cons, last]
    rfl

theorem givenBy_cons (word : Text) (words : List Text)
    : givenBy (word :: words)
      = ⟨(givenBy [word]).wind || (givenBy words).wind,
          (givenBy [word]).visibility || (givenBy words).visibility,
          (givenBy [word]).shear || (givenBy words).shear⟩ := by
  simp [givenBy]

theorem givenBy_append_of_nothing {front : List Text}
    (nothing : givenBy front = ⟨false, false, false⟩) (words : List Text)
    : givenBy (front ++ words) = givenBy words := by
  simp only [givenBy, Given.mk.injEq] at nothing
  simp [givenBy, List.any_append, nothing]

/-- The header of a change gives nothing. -/
theorem givenBy_header (indicator : TafIndicator)
    : givenBy indicator.header = ⟨false, false, false⟩ := by
  have both {first : Text} (nothing : givenBy [first] = ⟨false, false, false⟩)
      (validity : TafValidity)
      : givenBy [first, validity.text] = ⟨false, false, false⟩ := by
    rw [givenBy_cons, nothing, givenBy_text]
    rfl
  cases indicator with
  | fm start =>
      refine givenBy_of_digit ?_ ?_
      · intro same
        have inside : 'F' ∈ "FM".toList ++ start.text := by simp
        rw [same] at inside
        exact absurd inside (by decide)
      · obtain ⟨c, last⟩ : ∃ c, start.text.getLast? = some c := by
          cases last : start.text.getLast? with
          | none =>
              have size := start.length
              rw [List.getLast?_eq_none_iff.mp last] at size
              cases size
          | some c => exact ⟨c, rfl⟩
        refine ⟨c, ?_, List.all_eq_true.mp start.digits c (List.mem_of_getLast? last)⟩
        rw [List.getLast?_append, last]
        rfl
  | becmg validity => exact both (by decide +kernel) validity
  | tempo validity => exact both (by decide +kernel) validity
  | prob likelihood validity => exact both (by cases likelihood <;> decide +kernel) validity
  | probTempo likelihood validity => exact both (by decide +kernel) validity

/-- What holds of digits and of the characters of the markers holds of an indicator. -/
theorem forall_mem_indicator {holds : Char → Prop} (digits : ∀ c, c.isDigit = true → holds c)
    (others : ∀ c ∈ "FMBECGTOPR/".toList, holds c) (indicator : TafIndicator)
    : ∀ word ∈ indicator.words, ∀ c ∈ word, holds c := by
  have written {text : Text} (digitsOrOthers : text.all fun c =>
      c.isDigit || c ∈ "FMBECGTOPR/".toList)
      : ∀ c ∈ text, holds c := by
    intro c member
    have shown := List.all_eq_true.mp digitsOrOthers c member
    rcases Bool.or_eq_true_iff.mp shown with digit | other
    · exact digits c digit
    · exact others c (by simpa using other)
  have ofDigits {count : Nat} (number : Digits count) : ∀ c ∈ number.text, holds c :=
    fun c member => digits c (List.all_eq_true.mp number.digits c member)
  have ofValidity (validity : TafValidity) : ∀ c ∈ validity.text, holds c := by
    intro c member
    rcases List.mem_append.mp member with member | member
    · exact ofDigits validity.validFrom c member
    · rcases List.mem_cons.mp member with rfl | member
      · exact others '/' (by decide)
      · exact ofDigits validity.validTo c member
  have likely (likelihood : TafLikelihood) : ∀ c ∈ likelihood.text, holds c := by
    cases likelihood <;> exact written (by decide)
  have both {first : Text} (marker : ∀ c ∈ first, holds c) (validity : TafValidity)
      : ∀ word ∈ [first, validity.text], ∀ c ∈ word, holds c := by
    intro word member
    simp only [List.mem_cons, List.not_mem_nil, or_false] at member
    rcases member with rfl | rfl
    · exact marker
    · exact ofValidity validity
  cases indicator with
  | fm start =>
      intro word member c inside
      obtain rfl := List.mem_singleton.mp member
      rcases List.mem_append.mp inside with inside | inside
      · exact @written "FM".toList (by decide) c inside
      · exact ofDigits start c inside
  | becmg validity => exact both (written (by decide)) validity
  | tempo validity => exact both (written (by decide)) validity
  | prob likelihood validity => exact both (likely likelihood) validity
  | probTempo likelihood validity =>
      intro word member
      rcases List.mem_cons.mp member with rfl | member
      · exact likely likelihood
      · exact @both "TEMPO".toList (written (by decide)) validity word member

theorem isAscii_indicator (indicator : TafIndicator)
    : ∀ word ∈ indicator.words, IsAscii word :=
  forall_mem_indicator (fun _ => utf8Size_of_isDigit) (by decide) indicator

theorem visible_indicator (indicator : TafIndicator)
    : ∀ word ∈ indicator.words, ∀ c ∈ word, isWhitespace c = false :=
  forall_mem_indicator (fun _ => isWhitespace_of_isDigit) (by decide) indicator

-----------------------------------------------------------------------------------------
-- Endings
-----------------------------------------------------------------------------------------

/-- What stands in front of the conditions that a report ends with: the segments that are cut off
before, and the words of the same segment.
-/
structure TafEnding (report : TafReport) where
  front : List Text
  segments : List (List Text)
  header : List Text
  body : report.body = front ++ report.lastConditions
  cut : ∀ words rest, words ≠ [] → (∀ word ∈ words, isGroupMarker word = false)
    → cutAtMarkers (front ++ words ++ rest)
      = segments ++ (header ++ words ++ (markedGroups rest).1) :: (markedGroups rest).2
  ascii : ∀ segment ∈ segments ++ [header], ∀ word ∈ segment, IsAscii word
  leads : segments = [] ∧ givenBy header = ⟨false, false, false⟩
    ∨ segments ≠ [] ∧ ∃ indicator : TafIndicator, header = indicator.header

section Termination

variable {report : TafReport} (wellFormed : report.IsWellFormed)
include wellFormed

theorem exists_ending : Nonempty (TafEnding report) := by
  have unmarked : ∀ word ∈ report.conditions, isGroupMarker word = false :=
    fun word member => (wellFormed.conditions word member).unmarked
  rcases List.eq_nil_or_concat report.changes with none | ⟨front, final, changes⟩
  · refine ⟨⟨[], [], [], ?_, ?_, by simp, .inl ⟨rfl, rfl⟩⟩⟩
    · simp [TafReport.body, TafReport.lastConditions, none]
    · intro words rest some others
      rw [List.nil_append, cutAtMarkers_eq, markedGroups_append others,
        if_neg (List.append_ne_nil_of_left_ne_nil some _)]
      rfl
  · rw [List.concat_eq_append] at changes
    have frontUnmarked : ∀ change ∈ front, ∀ word ∈ change.conditions,
        isGroupMarker word = false := fun change member word inside =>
      ((wellFormed.changes change (by simp [changes, member])).2 word inside).unmarked
    have cutConditions (rest : List Text) (starts : (markedGroups rest).1 = [])
        : cutAtMarkers (report.conditions ++ rest)
          = [report.conditions].filter (· ≠ []) ++ (markedGroups rest).2 := by
      rw [cutAtMarkers_eq, markedGroups_append unmarked, starts, List.append_nil]
      by_cases empty : report.conditions = []
      · simp [empty]
      · simp [empty]
    refine ⟨⟨report.conditions ++ front.flatMap TafChange.words ++ final.indicator.words,
      [report.conditions].filter (· ≠ []) ++ front.flatMap TafChange.segments
        ++ final.indicator.before, final.indicator.header, ?_, ?_, ?_, ?_⟩⟩
    · simp [TafReport.body, TafReport.lastConditions, changes, TafChange.words]
    · intro words rest some others
      have final' : markedGroups (final.indicator.words ++ (words ++ rest))
          = ([], final.indicator.before
            ++ (final.indicator.header ++ (words ++ (markedGroups rest).1))
              :: (markedGroups rest).2) := by
        rw [markedGroups_indicator, markedGroups_append others]
      have all := markedGroups_changes frontUnmarked (congrArg Prod.fst final')
      simp only [List.append_assoc]
      rw [cutConditions _ (congrArg Prod.fst all), all, final']
    · have asciiWords : ∀ word ∈ report.conditions, IsAscii word :=
        fun word member => (wellFormed.conditions word member).ascii
      have asciiChange (change : TafChange) (member : change ∈ report.changes)
          : ∀ segment ∈ change.segments, ∀ word ∈ segment, IsAscii word := by
        intro segment inside word here
        have among : word ∈ change.indicator.words ++ change.conditions := by
          rw [TafIndicator.words, List.append_assoc]
          rcases List.mem_append.mp inside with inside | inside
          · exact List.mem_append_left _ (List.mem_flatten.mpr ⟨segment, inside, here⟩)
          · obtain rfl := List.mem_singleton.mp inside
            exact List.mem_append_right _ here
        rcases List.mem_append.mp among with among | among
        · exact isAscii_indicator change.indicator word among
        · exact ((wellFormed.changes change member).2 word among).ascii
      intro segment inside word here
      simp only [List.mem_append, List.mem_filter, List.mem_singleton, List.mem_flatMap]
        at inside
      rcases inside with ((⟨rfl, -⟩ | ⟨change, member, inside⟩) | inside) | rfl
      · exact asciiWords word here
      · exact asciiChange change (by simp [changes, member]) segment inside word here
      · exact asciiChange final (by simp [changes]) segment
          (List.mem_append_left _ inside) word here
      · refine isAscii_indicator final.indicator word ?_
        rw [TafIndicator.words]
        exact List.mem_append_right _ here
    · by_cases first : [report.conditions].filter (· ≠ []) ++ front.flatMap TafChange.segments
          ++ final.indicator.before = []
      · exact .inl ⟨first, givenBy_header final.indicator⟩
      · exact .inr ⟨first, final.indicator, rfl⟩

omit wellFormed in
theorem exceptMap_inj_iff {ε α β : Type} {f : α → β} (injective : Function.Injective f)
    {left right : Except ε α}
    : f <$> left = f <$> right ↔ left = right := by
  cases left <;> cases right <;>
    simp [Functor.map, Except.map, injective.eq_iff]

omit wellFormed in
theorem groupReading_header (indicator : TafIndicator) (left right : List Text)
    (conditions : TafConditions)
    : groupReading (indicator.groupHeader left) conditions
      = groupReading (indicator.groupHeader right) conditions := by
  cases indicator <;> rfl

omit wellFormed in
/-- Segments that go on are told from those of the report as far as their conditions are. -/
theorem readSegments_ending_iff (ending : TafEnding report) {init : List Text} {last : Text}
    (asciiInit : ∀ word ∈ init, IsAscii word) (asciiLast : IsAscii last) (damaged : List Text)
    (groups : List (List Text))
    : readSegments (ending.segments ++ (ending.header ++ (init ++ damaged)) :: groups)
        = readSegments (ending.segments ++ [ending.header ++ (init ++ [last])])
      ↔ itemsRead (givenBy init) damaged = itemsRead (givenBy init) [last]
        ∧ ∀ segment ∈ groups, parseGroupHeader segment = none := by
  obtain ⟨front, segments, header, body, cut, ascii, leads⟩ := ending
  simp only
  have asciiHeader : ∀ word ∈ header, IsAscii word := ascii header (by simp)
  have asciiWhole : ∀ word ∈ header ++ init, IsAscii word := by
    intro word member
    rcases List.mem_append.mp member with member | member
    · exact asciiHeader word member
    · exact asciiInit word member
  rw [← groupsRead_eq_nil_iff]
  cases segments with
  | nil =>
      have nothing : givenBy header = ⟨false, false, false⟩ := by
        rcases leads with ⟨-, nothing⟩ | ⟨some, -⟩
        · exact nothing
        · exact absurd rfl some
      have goesOn := parseConditions_append_iff asciiWhole asciiLast damaged
      rw [givenBy_append_of_nothing nothing] at goesOn
      rw [← goesOn, List.append_assoc, List.append_assoc, List.nil_append, List.nil_append,
        readSegments_cons, readSegments_cons]
      obtain ⟨conditions, read⟩ : Returns (parseConditions (header ++ (init ++ [last]))) := by
        refine returns_parseConditions fun word member => ?_
        rw [← List.append_assoc] at member
        rcases List.mem_append.mp member with member | member
        · exact asciiWhole word member
        · rwa [List.mem_singleton.mp member]
      rw [read]
      cases parseConditions (header ++ (init ++ damaged)) with
      | error panic => simp [bind, Except.bind, pure, Except.pure]
      | ok other =>
          cases groupsRead groups <;> simp [bind, Except.bind, pure, Except.pure]
  | cons first segments =>
      obtain ⟨indicator, rfl⟩ : ∃ indicator : TafIndicator, header = indicator.header := by
        rcases leads with ⟨none, -⟩ | ⟨-, found⟩
        · cases none
        · exact found
      obtain ⟨initial, readInitial⟩ : Returns (parseConditions first) :=
        returns_parseConditions (ascii first (by simp))
      obtain ⟨readings, readSegments'⟩ : Returns (groupsRead segments) :=
        returns_groupsRead fun segment member => ascii segment (by simp [member])
      have goesOn := parseConditions_append_iff asciiInit asciiLast damaged
      have single (words : List Text)
          : groupsRead [indicator.header ++ words]
            = (fun conditions => [groupReading (indicator.groupHeader []) conditions])
              <$> parseConditions words := by
        rw [groupsRead_single (parseGroupHeader_header indicator words)]
        have same : (indicator.groupHeader words).body = words := by cases indicator <;> rfl
        rw [same]
        refine congrArg (· <$> parseConditions words) (funext fun conditions => ?_)
        rw [groupReading_header indicator words []]
      obtain ⟨conditions, read⟩ : Returns (parseConditions (init ++ [last])) := by
        refine returns_parseConditions fun word member => ?_
        rcases List.mem_append.mp member with member | member
        · exact asciiInit word member
        · rwa [List.mem_singleton.mp member]
      rw [← goesOn, List.cons_append, List.cons_append, readSegments_cons, readSegments_cons,
        readInitial, groupsRead_append, groupsRead_append, readSegments',
        ← List.singleton_append, groupsRead_append, single, single, read]
      cases parseConditions (init ++ damaged) with
      | error panic => simp [bind, Except.bind, pure, Except.pure, Functor.map, Except.map]
      | ok other =>
          cases groupsRead groups with
          | error panic => simp [bind, Except.bind, pure, Except.pure, Functor.map, Except.map]
          | ok others =>
              have told : groupReading (indicator.groupHeader []) other
                  = groupReading (indicator.groupHeader []) conditions ↔ other = conditions := by
                simp [groupReading]
              simp [bind, Except.bind, pure, Except.pure, Functor.map, Except.map, told]

omit wellFormed in
/-- A terminator makes no marker of a word. -/
theorem isGroupMarker_append_terminator {word : Text} (unmarked : isGroupMarker word = false)
    (behind : Text)
    : isGroupMarker (word ++ '=' :: behind) = false := by
  simp only [isGroupMarker, Bool.or_eq_false_iff, decide_eq_false_iff_not] at unmarked ⊢
  obtain ⟨⟨⟨⟨notFm, notTempo⟩, notBecmg⟩, notThirty⟩, notForty⟩ := unmarked
  have starts {literal : Text} (free : '=' ∉ literal) (other : ¬ literal <+: word)
      : ¬ literal <+: word ++ '=' :: behind := by
    rwa [prefix_append_cons_iff free]
  have differs {literal : Text} (free : '=' ∉ literal) : word ++ '=' :: behind ≠ literal := by
    rintro rfl
    simp at free
  exact ⟨⟨⟨⟨starts (by decide) notFm, differs (by decide)⟩, differs (by decide)⟩,
    starts (by decide) notThirty⟩, starts (by decide) notForty⟩

omit wellFormed in
/-- The first word of what is glued together. -/
theorem tokens_terminated {separates : Char → Bool} {word : Text}
    (isToken : IsToken separates word) (solid : separates '=' = false) (following : Text)
    : ∃ behind others,
        tokens separates (word ++ '=' :: following) = (word ++ '=' :: behind) :: others := by
  obtain ⟨first, others, split⟩ :=
    List.exists_cons_of_ne_nil (List.splitOnP_ne_nil separates following)
  have whole : ∀ c ∈ word ++ ['='], separates c = false := by
    intro c member
    rcases List.mem_append.mp member with member | member
    · exact isToken.solid c member
    · rwa [List.mem_singleton.mp member]
  have glued := @tokens_append_of_splitOnP separates (word ++ ['=']) following _ _ [] _
    (List.splitOnP_eq_singleton whole) (by simp) split
  refine ⟨first, others.filter (· ≠ []), ?_⟩
  simpa using glued

omit wellFormed in
theorem isWhitespace_of_isAsciiWhitespace {c : Char} (blank : isAsciiWhitespace c = true)
    : isWhitespace c = true := by
  simp only [isAsciiWhitespace, Bool.or_eq_true, decide_eq_true_eq] at blank
  rcases blank with (((rfl | rfl) | rfl) | rfl) | rfl <;> rfl

omit wellFormed in
theorem tokens_written {text : Text} (written : report.IsWritten text) {front : List Text}
    {last : Text} (words : report.words = front ++ [last]) (following : Text)
    : tokens isAsciiWhitespace (text ++ '=' :: following)
      = front ++ tokens isAsciiWhitespace (last ++ '=' :: following) :=
  tokens_append_of_visible (written.words.trans words) written.ends _

omit wellFormed in
theorem solid_of_words {separates : Char → Bool} {text : Text} {words : List Text}
    (split : tokens separates text = words) {word : Text} (member : word ∈ words)
    : ∀ c ∈ word, separates c = false :=
  (isToken_of_mem_tokens (split.symm ▸ member)).solid

omit wellFormed in
theorem parseValidityRange_terminated (validity : TafValidity) (behind : Text)
    : parseValidityRange (validity.text ++ '=' :: behind) = none := by
  have solid : '/' ∉ validity.validFrom.text := validity.validFrom.not_mem rfl
  have split : validity.text ++ '=' :: behind
      = validity.validFrom.text ++ '/' :: (validity.validTo.text ++ '=' :: behind) := by
    simp [TafValidity.text]
  have invalid : ¬ (utf8Len validity.validFrom.text = 4
      ∧ utf8Len (validity.validTo.text ++ '=' :: behind) = 4
      ∧ validity.validFrom.text.all Char.isDigit = true
      ∧ (validity.validTo.text ++ '=' :: behind).all Char.isDigit = true) := by
    rintro ⟨-, -, -, digits⟩
    exact absurd (List.all_eq_true.mp digits '=' (by simp)) (by decide)
  rw [parseValidityRange, split, splitOnce_append_cons _ solid]
  simp only [guard, Option.bind_eq_bind, Option.bind_some, if_neg invalid]
  rfl

/-- The conditions that a report ends with are its own. -/
theorem isConditionWord_of_lastConditions
    : ∀ word ∈ report.lastConditions, IsConditionWord word := by
  rw [TafReport.lastConditions]
  split
  · exact wellFormed.conditions
  · next change last =>
      exact (wellFormed.changes change (List.mem_of_getLast? last)).2

/-- A report without conditions at its end has no body. -/
theorem body_of_lastConditions (none : report.lastConditions = []) : report.body = [] := by
  rw [TafReport.lastConditions] at none
  split at none
  · next noChange =>
      rw [TafReport.body, none, List.getLast?_eq_none_iff.mp noChange]
      rfl
  · next change last =>
      exact absurd none (wellFormed.changes change (List.mem_of_getLast? last)).1

/-- The body of a report is made of words. -/
theorem isWord_body {text : Text} (written : report.IsWritten text)
    : ∀ word ∈ report.body, IsWord word := by
  intro word member
  have whole : word ∈ report.words := by simp [TafReport.words, member]
  have some := (isToken_of_mem_tokens (written.words.symm ▸ whole)).nonempty
  refine ⟨some, ?_⟩
  rw [TafReport.body] at member
  rcases List.mem_append.mp member with member | member
  · exact (wellFormed.conditions word member).isWord.visible
  · obtain ⟨change, among, member⟩ := List.mem_flatMap.mp member
    rcases List.mem_append.mp member with member | member
    · exact visible_indicator change.indicator word member
    · exact ((wellFormed.changes change among).2 word member).isWord.visible

/-- A report whose heading takes its station is not read, with or without a terminator. -/
theorem readTaf_terminated_takes {text : Text} (written : report.IsWritten text)
    (takes : report.heading.Takes report.station) (following : Text)
    : readTaf (text ++ '=' :: following) = readTaf text := by
  have isStation := wellFormed.station
  have isIssueTime := wellFormed.issueTime
  obtain ⟨more, last, split⟩ : ∃ more last,
      report.validity.text :: report.body = more ++ [last] := by
    rcases List.eq_nil_or_concat (report.validity.text :: report.body) with none | split
    · cases none
    · simpa using split
  have words : report.words
      = (report.heading.words ++ report.station :: report.issueTime :: more) ++ [last] := by
    rw [TafReport.words, split]
    simp
  have terminated := tokens_written written words following
  rw [List.append_assoc, List.cons_append, List.cons_append] at terminated
  rw [readTaf_takes isStation isIssueTime takes terminated,
    readTaf_takes isStation isIssueTime takes written.words]

/-- Without conditions the terminator is glued to the validity, which is lost. -/
theorem readTaf_terminated_bare {text : Text} (written : report.IsWritten text)
    (free : ¬ report.heading.Takes report.station) (none : report.lastConditions = [])
    (following : Text)
    : readTaf (text ++ '=' :: following) ≠ readTaf text := by
  have isStation := wellFormed.station
  have isIssueTime := wellFormed.issueTime
  have empty := body_of_lastConditions wellFormed none
  have words : report.words
      = (report.heading.words ++ [report.station, report.issueTime])
        ++ [report.validity.text] := by
    rw [TafReport.words, empty]
    simp
  obtain ⟨behind, others, glued⟩ := @tokens_terminated isAsciiWhitespace report.validity.text
    ⟨by simp [TafValidity.text], solid_of_words written.words (by simp [TafReport.words])⟩ rfl
    following
  have terminated := tokens_written written words following
  rw [glued, List.append_assoc] at terminated
  rw [readTaf_words isStation isIssueTime free written.words,
    readTaf_words isStation isIssueTime free terminated, parseValidityRange_terminated,
    parseValidityRange_text, empty]
  intro same
  cases call : readSegments (cutAtMarkers (others.flatMap splitWhitespace)) with
  | error panic =>
      rw [call] at same
      cases same
  | ok read =>
      rw [call] at same
      have reading := congrArg (Option.map TafReading.validFrom) (Except.ok.inj same)
      cases reading

omit wellFormed in
/-- The words that a terminator and what follows it leave of a text. -/
theorem splitWhitespace_terminated {front : List Text} {last behind following : Text}
    {others : List Text} (areWords : ∀ word ∈ front, IsWord word)
    (glued : splitWhitespace (last ++ '=' :: following) = (last ++ '=' :: behind) :: others)
    : (front ++ tokens isAsciiWhitespace (last ++ '=' :: following)).flatMap splitWhitespace
      = front ++ (last ++ '=' :: behind) :: others := by
  have finer := @flatMap_tokens isAsciiWhitespace isWhitespace
    (fun c => isWhitespace_of_isAsciiWhitespace) (last ++ '=' :: following)
  rw [List.flatMap_append, flatMap_splitWhitespace areWords]
  refine congrArg (front ++ ·) (finer.trans ?_)
  rw [← splitWhitespace_eq_tokens, glued]

omit wellFormed in
/-- The segments of a report that ends with words that are no markers. -/
theorem TafEnding.cut_words (ending : TafEnding report) {init : List Text} {last : Text}
    (unmarkedInit : ∀ word ∈ init, isGroupMarker word = false)
    (unmarked : isGroupMarker last = false) (others : List Text)
    : cutAtMarkers (ending.front ++ init ++ last :: others)
      = ending.segments ++ (ending.header ++ (init ++ last :: (markedGroups others).1))
        :: (markedGroups others).2 := by
  have cut := ending.cut (init ++ [last]) others (by simp) (by
    intro word member
    rcases List.mem_append.mp member with member | member
    · exact unmarkedInit word member
    · rwa [List.mem_singleton.mp member])
  simpa using cut

omit wellFormed in
/-- What is undamaged, by the word with the terminator and those behind it. -/
theorem undamaged_iff {init others : List Text} {last behind following : Text}
    (ends : report.lastConditions = init ++ [last])
    (glued : splitWhitespace (last ++ '=' :: following) = (last ++ '=' :: behind) :: others)
    (unmarked : isGroupMarker last = false)
    : report.Undamaged following
      ↔ itemsRead (givenBy init) ((last ++ '=' :: behind) :: (markedGroups others).1)
          = itemsRead (givenBy init) [last]
        ∧ ∀ segment ∈ (markedGroups others).2, parseGroupHeader segment = none := by
  have marked : markedGroups (splitWhitespace (last ++ '=' :: following))
      = ((last ++ '=' :: behind) :: (markedGroups others).1, (markedGroups others).2) := by
    rw [glued, markedGroups_other (isGroupMarker_append_terminator unmarked behind)]
  constructor
  · rintro ⟨init', last', split, same⟩
    obtain ⟨rfl, single⟩ := List.append_inj' (ends.symm.trans split) rfl
    obtain rfl : last = last' := by simpa using single
    simpa only [marked] using same
  · intro same
    exact ⟨init, last, ends, by simpa only [marked] using same⟩

/-- A report that ends with conditions. -/
theorem readTaf_terminated_conditions {text : Text} (written : report.IsWritten text)
    (free : ¬ report.heading.Takes report.station) {init : List Text} {last : Text}
    (ends : report.lastConditions = init ++ [last]) (following : Text)
    : readTaf (text ++ '=' :: following) = readTaf text ↔ report.Undamaged following := by
  have isStation := wellFormed.station
  have isIssueTime := wellFormed.issueTime
  obtain ⟨ending⟩ := exists_ending wellFormed
  have isConditionWord := isConditionWord_of_lastConditions wellFormed
  rw [ends] at isConditionWord
  have isLast := isConditionWord last (by simp)
  have unmarkedInit : ∀ word ∈ init, isGroupMarker word = false :=
    fun word member => (isConditionWord word (by simp [member])).unmarked
  have asciiInit : ∀ word ∈ init, IsAscii word :=
    fun word member => (isConditionWord word (by simp [member])).ascii
  have body : report.body = ending.front ++ init ++ [last] := by
    rw [ending.body, ends, List.append_assoc]
  have areWords := isWord_body wellFormed written
  have frontWords : ∀ word ∈ ending.front ++ init, IsWord word := fun word member =>
    areWords word (body ▸ List.mem_append_left _ member)
  have words : report.words
      = (report.heading.words ++ report.station :: report.issueTime :: report.validity.text
        :: (ending.front ++ init)) ++ [last] := by
    rw [TafReport.words, body]
    simp
  have terminated := tokens_written written words following
  rw [List.append_assoc, List.cons_append, List.cons_append, List.cons_append] at terminated
  obtain ⟨behind, others, glued⟩ :=
    @tokens_terminated isWhitespace last (isToken_iff_isWord.mpr isLast.isWord) rfl following
  rw [← splitWhitespace_eq_tokens] at glued
  have damaged := ending.cut_words unmarkedInit
    (isGroupMarker_append_terminator isLast.unmarked behind) others
  have whole := ending.cut_words unmarkedInit isLast.unmarked []
  have goesOn := readSegments_ending_iff ending asciiInit isLast.ascii
    ((last ++ '=' :: behind) :: (markedGroups others).1) (markedGroups others).2
  rw [undamaged_iff ends glued isLast.unmarked, ← goesOn,
    readTaf_words isStation isIssueTime free terminated,
    readTaf_words isStation isIssueTime free written.words,
    splitWhitespace_terminated frontWords glued, flatMap_splitWhitespace areWords, body, damaged,
    whole]
  refine exceptMap_inj_iff fun left right same => ?_
  simpa [Prod.ext_iff] using same

/-- A report with a terminator and anything behind it is read as the report alone exactly if its
heading takes its station, so that neither is read, or its end is not damaged.
-/
theorem readTaf_terminated_iff {text : Text} (written : report.IsWritten text) (following : Text)
    : readTaf (text ++ '=' :: following) = readTaf text
      ↔ report.heading.Takes report.station ∨ report.Undamaged following := by
  by_cases takes : report.heading.Takes report.station
  · simp [takes, readTaf_terminated_takes wellFormed written takes following]
  simp only [takes, false_or]
  rcases List.eq_nil_or_concat report.lastConditions with none | ⟨init, last, ends⟩
  · have differs := readTaf_terminated_bare wellFormed written takes none following
    refine iff_of_false differs ?_
    rintro ⟨init, last, split, -⟩
    rw [none] at split
    simp at split
  · rw [List.concat_eq_append] at ends
    exact readTaf_terminated_conditions wellFormed written takes ends following

end Termination

-----------------------------------------------------------------------------------------
-- Two stations
-----------------------------------------------------------------------------------------

def sampleValidity : TafValidity where
  validFrom := ⟨"0906".toList, by decide, rfl⟩
  validTo := ⟨"1012".toList, by decide, rfl⟩

/-- A report with a change. -/
def sampleReport : TafReport where
  heading := .routine
  station := "KBOS".toList
  issueTime := "090520Z".toList
  validity := sampleValidity
  conditions := ["28012KT", "P6SM", "FEW250"].map String.toList
  changes := [⟨.fm ⟨"091800".toList, by decide, rfl⟩,
    ["31015G25KT", "P6SM", "SCT040"].map String.toList⟩]

def sampleText : Text :=
  "TAF KBOS 090520Z 0906/1012 28012KT P6SM FEW250\n  FM091800 31015G25KT P6SM SCT040".toList

theorem sampleReport_isWellFormed : sampleReport.IsWellFormed where
  station := by decide
  issueTime := by decide
  conditions := by decide +kernel
  changes := by decide +kernel

theorem sampleReport_isWritten : sampleReport.IsWritten sampleText where
  words := by decide +kernel
  ends := by decide +kernel

/-- The report alone with its terminator. -/
theorem readTaf_terminated_sample
    : readTaf (sampleText ++ '=' :: "\n".toList) = readTaf sampleText
      ↔ sampleReport.heading.Takes sampleReport.station
        ∨ sampleReport.Undamaged "\n".toList :=
  readTaf_terminated_iff sampleReport_isWellFormed sampleReport_isWritten _

/-- Clouds of the report of a second station are read as clouds of the first. -/
theorem next_report_swallowed
    : ¬ ∀ (report : TafReport) (text following : Text),
        report.IsWellFormed → report.IsWritten text
        → readTaf (text ++ '=' :: following) = readTaf text := by
  intro kept
  have same := kept sampleReport sampleText
    "\nTAF KORD 090520Z 0906/1012 30010KT P6SM OVC010=".toList sampleReport_isWellFormed
    sampleReport_isWritten
  revert same
  decide +kernel

end Emwin.Parser
