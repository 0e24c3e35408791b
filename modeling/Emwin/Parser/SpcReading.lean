import Emwin.Parser.SpcProducts

/-! What is read of a printed points product, and when that is what it lists. -/

namespace Emwin.Parser
open Library

variable {words : WordCharacters}

-----------------------------------------------------------------------------------------
-- Lines
-----------------------------------------------------------------------------------------

theorem not_dots_of_visible {c : Char} {rest : Text} (other : c ≠ '.')
    : categoryName (c :: rest) = none := by
  refine categoryName_eq_none fun starts => other ?_
  obtain ⟨more, same⟩ := starts
  exact ((List.cons.inj same).1).symm

theorem stops_spaced {pieces : List (Text × Text)}
    (spacing : ∀ piece ∈ pieces, IsSpaced isWhitespace piece)
    : words.stops (spaced pieces) = true := by
  have starts := @head?_spaced isWhitespace pieces [] spacing nofun
  rw [List.append_nil] at starts
  unfold WordCharacters.stops
  cases first : (spaced pieces).head? with
  | none => rfl
  | some c => simpa using words.blank c (starts c first)

/-- The line that an area starts with is read as its label and its words. -/
theorem thresholdOf_printed {label line : Text} {others : List Text}
    (isThreshold : IsThreshold label)
    (printed : OutlookLine.IsPrintedAs (.words label others) line)
    : ∃ behind,
        thresholdOf words line = some (label, behind) ∧ splitWhitespace behind = others := by
  obtain ⟨pieces, spacing, rfl, rfl⟩ := printed
  exact ⟨_, thresholdOf_eq words isThreshold (stops_spaced spacing), tokens_spaced spacing⟩

/-- A threshold starts with a capital or a digit, and a word of digits is none. -/
theorem isThreshold_head {label : Text} (isThreshold : IsThreshold label)
    : ∃ c rest, label = c :: rest ∧ c ≠ '.' ∧ c ≠ '&' ∧ isWhitespace c = false := by
  rcases isThreshold with listed | number
  · have all : ∀ name ∈ thresholdNames,
        name.head?.any fun c => c ≠ '.' && c ≠ '&' && !isWhitespace c := by
      decide
    have here := all label listed
    cases label with
    | nil => cases here
    | cons c rest => exact ⟨c, rest, rfl, by simpa [and_assoc] using here⟩
  · obtain ⟨c, rest, rfl, digit⟩ := exists_digit_of_isProbability number
    refine ⟨c, rest, rfl, ?_, ?_, isWhitespace_of_isDigit digit⟩
    all_goals
      rintro rfl
      exact absurd digit (by decide)

theorem asciiUppercase_of_lt {c : Char} (small : c.toNat < 97) : asciiUppercase c = c := by
  have above : ¬ 'a' ≤ c := fun least => by
    have bound : 97 ≤ c.toNat := UInt32.le_iff_toNat_le.mp least
    omega
  rw [asciiUppercase, if_neg fun both => above both.1]

/-- Labels are capitals, digits and points. -/
theorem toAsciiUppercase_threshold {label : Text} (isThreshold : IsThreshold label)
    : toAsciiUppercase label = label := by
  rcases isThreshold with listed | number
  · have all : ∀ name ∈ thresholdNames, toAsciiUppercase name = name := by decide
    exact all label listed
  · obtain ⟨whole, hundredths, rfl, -, -, digits, more⟩ := number.digits
    have same : ∀ c ∈ whole ++ '.' :: hundredths, asciiUppercase c = c := by
      have digit {c : Char} (digit : c.isDigit = true) : asciiUppercase c = c := by
        have bounds := bounds_of_isDigit digit
        exact asciiUppercase_of_lt (by omega)
      intro c member
      rw [List.mem_append, List.mem_cons] at member
      rcases member with inside | rfl | inside
      · exact digit (digits c inside)
      · rfl
      · exact digit (more c inside)
    rw [toAsciiUppercase, List.map_congr_left same, List.map_id']

theorem signLabel_not_threshold : ¬ IsThreshold signLabel := by
  rintro (listed | number)
  · exact absurd listed (by decide)
  · obtain ⟨c, rest, same, digit⟩ := exists_digit_of_isProbability number
    obtain rfl : 'S' = c := (List.cons.inj same).1
    exact absurd digit (by decide)

theorem toAsciiUppercase_name {name : Text} (isName : IsCategoryName name)
    : toAsciiUppercase name = name := by
  have same : ∀ c ∈ name, asciiUppercase c = c := by
    intro c member
    have capital := isName.capitals c member
    simp only [isUpperOrBlank, isUpper, inRange, Bool.or_eq_true, Bool.and_eq_true,
      decide_eq_true_eq] at capital
    rcases capital with ⟨-, most⟩ | rfl
    · have most : c.toNat ≤ 90 := UInt32.le_iff_toNat_le.mp most
      exact asciiUppercase_of_lt (by omega)
    · rfl
  rw [toAsciiUppercase, List.map_congr_left same, List.map_id']

theorem categoryName_printed {name line : Text} (isName : IsCategoryName name)
    (printed : OutlookLine.IsPrintedAs (.category name) line)
    : categoryName line = some name := by
  obtain ⟨front, back, frontBlank, backBlank, rfl⟩ := printed
  exact categoryName_eq isName frontBlank backBlank

theorem digits_of_points {word : Text} (points : word = polygonSeparator ∨ IsPackedPair word)
    : IsWord word ∧ ∀ c ∈ word, c.isDigit = true := by
  rcases points with rfl | packed
  · exact ⟨by decide, by decide⟩
  · exact ⟨packed.isWord, List.all_eq_true.mp packed.digits⟩

/-- A line of points starts nothing. -/
theorem points_printed {first line : Text} {others : List Text}
    (pairs : ∀ word ∈ first :: others, word = polygonSeparator ∨ IsPackedPair word)
    (printed : OutlookLine.IsPrintedAs (.words first others) line)
    : categoryName line = none ∧ line ≠ areaEnd ∧ thresholdOf words line = none
      ∧ splitWhitespace line = first :: others := by
  obtain ⟨pieces, spacing, rfl, rfl⟩ := printed
  rw [List.forall_mem_cons] at pairs
  obtain ⟨isWord, digits⟩ := digits_of_points pairs.1
  have starts := @head?_spaced isWhitespace pieces [] spacing nofun
  rw [List.append_nil] at starts
  have words : splitWhitespace (first ++ spaced pieces) = first :: pieces.map Prod.snd := by
    rw [splitWhitespace_eq_tokens, tokens_token (isToken_iff_isWord.mpr isWord) starts,
      tokens_spaced spacing]
  have characters : ∀ c ∈ first ++ spaced pieces, c.isDigit = true ∨ isWhitespace c = true := by
    intro c member
    rcases List.mem_append.mp member with inFirst | later
    · exact .inl (digits c inFirst)
    · obtain ⟨⟨gap, word⟩, listed, inside⟩ := List.mem_flatMap.mp later
      rcases List.mem_append.mp inside with inGap | inWord
      · exact .inr ((spacing (gap, word) listed).gap c inGap)
      · exact .inl ((digits_of_points (pairs.2 word (List.mem_map_of_mem listed))).2 c inWord)
  obtain ⟨c, rest, rfl⟩ := List.exists_cons_of_ne_nil isWord.nonempty
  have digit := digits c (by simp)
  refine ⟨not_dots_of_visible ?_, ?_, thresholdOf_eq_none _ fun label rest' isThreshold same => ?_,
    words⟩
  · rintro rfl
    exact absurd digit (by decide)
  · intro same
    obtain rfl : c = '&' := (List.cons.inj same).1
    exact absurd digit (by decide)
  · rcases isThreshold with listed | number
    · have letters : ∀ name ∈ thresholdNames, name.head?.all (fun c => !c.isDigit) = true
          ∧ name ≠ [] := by
        decide
      obtain ⟨letter, some⟩ := letters label listed
      obtain ⟨d, more, rfl⟩ := List.exists_cons_of_ne_nil some
      obtain rfl : c = d := (List.cons.inj same).1
      simp [digit] at letter
    · obtain ⟨whole, hundredths, rfl, -⟩ := number.digits
      have point := characters '.' (by rw [same]; simp)
      exact absurd point (by decide)

/-- A heading ends with a digit. -/
theorem heading_printed (day : PrintedDay) : categoryName day.heading = none := by
  cases found : categoryName day.heading with
  | none => rfl
  | some name =>
      obtain ⟨front, same⟩ := (dots_around_of_categoryName found).2
      have last := congrArg List.getLast? same
      rw [PrintedDay.heading, ← List.append_assoc,
        List.getLast?_append_of_ne_nil _ Nat.toDigits_ne_nil,
        List.getLast?_append_of_ne_nil _ (by decide : dots ≠ [])] at last
      have dot : '.' ∈ Nat.toDigits 10 day.day := List.mem_of_getLast? last.symm
      exact absurd (Nat.isDigit_of_mem_toDigits (by omega) (by omega) dot) (by decide)

theorem heading_ne_areaEnd (day : PrintedDay) : day.heading ≠ areaEnd := by
  intro same
  have last := congrArg List.getLast? same
  rw [PrintedDay.heading, ← List.append_assoc,
    List.getLast?_append_of_ne_nil _ Nat.toDigits_ne_nil] at last
  have mark : '&' ∈ Nat.toDigits 10 day.day := List.mem_of_getLast? last
  exact absurd (Nat.isDigit_of_mem_toDigits (by omega) (by omega) mark) (by decide)

-----------------------------------------------------------------------------------------
-- Single lines
-----------------------------------------------------------------------------------------

section Steps

variable {category : Option Text} {pending : Option AreaWords} {line : Text} {rest : List Text}

theorem scanAreas_category {name : Text} (named : categoryName line = some name)
    : scanAreas words category pending (line :: rest)
      = pending.toList ++ scanAreas words (some (toAsciiUppercase name)) none rest := by
  rw [scanAreas, named]

theorem scanAreas_end
    : scanAreas words category pending (areaEnd :: rest)
      = pending.toList ++ scanAreas words category none rest := by
  have unnamed : categoryName areaEnd = none := categoryName_eq_none (by decide)
  rw [scanAreas, unnamed]
  rfl

theorem scanAreas_start {current threshold behind : Text} (unnamed : categoryName line = none)
    (goesOn : line ≠ areaEnd) (starts : thresholdOf words line = some (threshold, behind))
    : scanAreas words (some current) pending (line :: rest)
      = pending.toList
        ++ scanAreas words (some current) (some (current, threshold, splitWhitespace behind))
            rest := by
  rw [scanAreas, unnamed]
  simp only [goesOn, if_false, (startedArea_eq_some_iff words).mpr ⟨rfl, starts⟩]

theorem scanAreas_more (unnamed : categoryName line = none) (goesOn : line ≠ areaEnd)
    (nothing : category = none ∨ thresholdOf words line = none)
    : scanAreas words category pending (line :: rest)
      = scanAreas words category
          (pending.map fun (current, threshold, tokens) =>
            (current, threshold, tokens ++ splitWhitespace line))
          rest := by
  rw [scanAreas, unnamed]
  simp only [goesOn, if_false, startedArea_eq_none words nothing]

end Steps

/-- A pending area is one more, by induction on the lines. -/
theorem length_scanAreas (category : Option Text) (pending : Option AreaWords)
    (list : List Text)
    : (scanAreas words category pending list).length
      = pending.toList.length + (scanAreas words category none list).length := by
  induction list generalizing category pending with
  | nil => simp [scanAreas]
  | cons line rest ih =>
      rw [scanAreas, scanAreas]
      cases categoryName line with
      | some name => simp
      | none =>
          dsimp only
          split
          · simp
          · cases startedArea words category line with
            | some found => simp
            | none =>
                dsimp only
                rw [ih]
                cases pending <;> simp

/-- Only thresholds start areas, by induction on the lines. -/
theorem isThreshold_of_mem_scanAreas {category : Option Text} {pending : Option AreaWords}
    {list : List Text} (known : ∀ area ∈ pending, IsThreshold area.2.1)
    : ∀ area ∈ scanAreas words category pending list, IsThreshold area.2.1 := by
  induction list generalizing category pending with
  | nil =>
      intro area member
      exact known area (by simpa [scanAreas] using member)
  | cons line rest ih =>
      intro area member
      rw [scanAreas] at member
      cases named : categoryName line with
      | some name =>
          rw [named] at member
          rcases List.mem_append.mp member with before | later
          · exact known area (by simpa using before)
          · exact ih (by simp) area later
      | none =>
          rw [named] at member
          dsimp only at member
          split at member
          · rcases List.mem_append.mp member with before | later
            · exact known area (by simpa using before)
            · exact ih (by simp) area later
          · cases starts : startedArea words category line with
            | some found =>
                obtain ⟨current, threshold, behind⟩ := found
                rw [starts] at member
                rcases List.mem_append.mp member with before | later
                · exact known area (by simpa using before)
                · refine ih (fun other same => ?_) area later
                  obtain rfl := Option.some.inj same
                  have read := ((startedArea_eq_some_iff words).mp starts).2
                  exact (isThreshold_of_thresholdOf words read).1
            | none =>
                rw [starts] at member
                refine ih (fun other same => ?_) area member
                obtain ⟨before, isBefore, rfl⟩ := Option.map_eq_some_iff.mp same
                exact known before isBefore

-----------------------------------------------------------------------------------------
-- Printed areas
-----------------------------------------------------------------------------------------

theorem mem_intercalate_points {outlines : List (List Text)}
    (points : ∀ outline ∈ outlines, ∀ token ∈ outline, IsPackedPair token)
    : ∀ word ∈ [polygonSeparator].intercalate outlines,
        word = polygonSeparator ∨ IsPackedPair word := by
  induction outlines with
  | nil => nofun
  | cons outline outlines ih =>
      have here := points outline (by simp)
      have later := ih fun other member => points other (by simp [member])
      intro word member
      cases outlines with
      | nil => exact .inr (here word (by simpa using member))
      | cons next outlines =>
          rw [List.intercalate_cons_cons] at member
          simp only [List.mem_append, List.mem_singleton] at member
          rcases member with (inside | rfl) | inside
          · exact .inr (here word inside)
          · exact .inl rfl
          · exact later word inside

theorem PrintedArea.words_points (area : PrintedArea)
    : ∀ word ∈ area.words, word = polygonSeparator ∨ IsPackedPair word := by
  rw [words, area.wrapped]
  exact mem_intercalate_points fun outline member => (area.points outline member).2

/-- Further lines of points are taken by the pending area, by induction on them. -/
theorem scanAreas_moreLines {more : List (Text × List Text)} {list : List Text}
    (printed
      : List.Forall₂ OutlookLine.IsPrintedAs
          (more.map fun line => OutlookLine.words line.1 line.2) list)
    (points
      : ∀ word ∈ more.flatMap fun line => line.1 :: line.2,
          word = polygonSeparator ∨ IsPackedPair word)
    (category : Option Text) (current threshold : Text) (tokens rest : List Text)
    : scanAreas words category (some (current, threshold, tokens)) (list ++ rest)
      = scanAreas words category
          (some (current, threshold, tokens ++ more.flatMap fun line => line.1 :: line.2))
          rest := by
  induction more generalizing list tokens with
  | nil =>
      obtain rfl := List.forall₂_nil_left_iff.mp printed
      simp
  | cons line more ih =>
      rw [List.map_cons, List.forall₂_cons_left_iff] at printed
      obtain ⟨first, others, here, later, rfl⟩ := printed
      rw [List.flatMap_cons] at points
      obtain ⟨unnamed, goesOn, nothing, split⟩ := @points_printed words _ _ _
        (fun word member => points word (List.mem_append_left _ member)) here
      rw [List.cons_append, scanAreas_more unnamed goesOn (.inr nothing), Option.map_some, split,
        ih later fun word member => points word (List.mem_append_right _ member),
        List.flatMap_cons, List.append_assoc]

/-- An area is started by its label, and takes its lines. -/
theorem scanAreas_area {area : PrintedArea} (isThreshold : IsThreshold area.label)
    {list : List Text} (printed : List.Forall₂ OutlookLine.IsPrintedAs area.lines list)
    (current : Text) (pending : Option AreaWords) (rest : List Text)
    : scanAreas words (some current) pending (list ++ rest)
      = pending.toList
        ++ scanAreas words (some current) (some (current, area.label, area.words)) rest := by
  obtain ⟨first, others, here, later, rfl⟩ := List.forall₂_cons_left_iff.mp printed
  obtain ⟨behind, starts, split⟩ := @thresholdOf_printed words _ _ _ isThreshold here
  obtain ⟨c, more, label, noDot, noMark, -⟩ := isThreshold_head isThreshold
  obtain ⟨pieces, -, -, same⟩ := here
  rw [label] at same
  have unnamed : categoryName first = none := by
    rw [same]
    exact not_dots_of_visible noDot
  have goesOn : first ≠ areaEnd := by
    rw [same]
    exact fun ends => noMark (List.cons.inj ends).1
  rw [List.cons_append, scanAreas_start unnamed goesOn starts, split,
    scanAreas_moreLines later fun word member => area.words_points word
      (List.mem_append_right _ member)]
  rfl

theorem exists_append_of_forall₂ {α β : Type} {R : α → β → Prop} {left right : List α}
    {list : List β} (related : List.Forall₂ R (left ++ right) list)
    : ∃ front back,
        List.Forall₂ R left front ∧ List.Forall₂ R right back ∧ list = front ++ back := by
  induction left generalizing list with
  | nil => exact ⟨[], list, .nil, related, rfl⟩
  | cons item left ih =>
      obtain ⟨other, more, here, later, rfl⟩ := List.forall₂_cons_left_iff.mp related
      obtain ⟨front, back, isFront, isBack, rfl⟩ := ih later
      exact ⟨other :: front, back, .cons here isFront, isBack, rfl⟩

/-- Areas in a row, by induction on them. -/
theorem scanAreas_areas {areas : List PrintedArea}
    (read : ∀ area ∈ areas, IsThreshold area.label) {list : List Text}
    (printed
      : List.Forall₂ OutlookLine.IsPrintedAs (areas.flatMap PrintedArea.lines ++ [.areaEnd]) list)
    (current : Text) (pending : Option AreaWords) (rest : List Text)
    : scanAreas words (some current) pending (list ++ rest)
      = pending.toList ++ (areas.map fun area => (current, area.label, area.words))
        ++ scanAreas words (some current) none rest := by
  induction areas generalizing list pending with
  | nil =>
      rw [List.flatMap_nil, List.nil_append, List.forall₂_cons_left_iff] at printed
      obtain ⟨line, others, ends, none, rfl⟩ := printed
      obtain rfl := List.forall₂_nil_left_iff.mp none
      obtain rfl : line = areaEnd := ends
      rw [List.singleton_append, scanAreas_end]
      simp
  | cons area areas ih =>
      rw [List.flatMap_cons, List.append_assoc] at printed
      obtain ⟨first, others, here, later, rfl⟩ := exists_append_of_forall₂ printed
      rw [List.append_assoc, scanAreas_area (read area (by simp)) here,
        ih (fun other member => read other (by simp [member])) later]
      simp

-----------------------------------------------------------------------------------------
-- Printed days
-----------------------------------------------------------------------------------------

/-- The category behind some categories. -/
def lastCategory (category : Option Text) (categories : List PrintedCategory) : Option Text :=
  categories.foldl (fun _ category => some category.name) category

theorem isSome_lastCategory (category : Option Text) (categories : List PrintedCategory)
    : (lastCategory category categories).isSome = (category.isSome || !categories.isEmpty) := by
  induction categories generalizing category with
  | nil => simp [lastCategory]
  | cons first categories ih =>
      rw [lastCategory, List.foldl_cons, ← lastCategory, ih]
      simp

/-- The words of a listed area. -/
def listedWords (entry : Nat × Text × PrintedArea) : AreaWords :=
  (entry.2.1, entry.2.2.label, entry.2.2.words)

def categoryEntries (day : Nat) (categories : List PrintedCategory)
    : List (Nat × Text × PrintedArea) :=
  categories.flatMap fun category => category.areas.map fun area => (day, category.name, area)

theorem categoryEntries_cons (day : Nat) (first : PrintedCategory)
    (categories : List PrintedCategory)
    : categoryEntries day (first :: categories)
      = (first.areas.map fun area => (day, first.name, area))
        ++ categoryEntries day categories := by
  rw [categoryEntries, List.flatMap_cons]
  rfl

/-- Categories in a row, by induction on them. -/
theorem scanAreas_categories {categories : List PrintedCategory} (day : Nat)
    (read : ∀ entry ∈ categoryEntries day categories, IsThreshold entry.2.2.label)
    {list : List Text}
    (printed
      : List.Forall₂ OutlookLine.IsPrintedAs (categories.flatMap PrintedCategory.lines) list)
    (category : Option Text) (rest : List Text)
    : scanAreas words category none (list ++ rest)
      = (categoryEntries day categories).map listedWords
        ++ scanAreas words (lastCategory category categories) none rest := by
  induction categories generalizing list category with
  | nil =>
      obtain rfl := List.forall₂_nil_left_iff.mp printed
      rfl
  | cons first categories ih =>
      rw [List.flatMap_cons] at printed
      obtain ⟨front, back, here, later, rfl⟩ := exists_append_of_forall₂ printed
      obtain ⟨line, lines, named, areas, rfl⟩ := List.forall₂_cons_left_iff.mp here
      rw [categoryEntries_cons] at read
      have firstRead : ∀ area ∈ first.areas, IsThreshold area.label := fun area member =>
        read (day, first.name, area) (List.mem_append_left _ (List.mem_map_of_mem member))
      have laterRead : ∀ entry ∈ categoryEntries day categories, IsThreshold entry.2.2.label :=
        fun entry member => read entry (List.mem_append_right _ member)
      rw [List.cons_append, List.cons_append,
        scanAreas_category (categoryName_printed first.isName named),
        toAsciiUppercase_name first.isName, List.append_assoc, scanAreas_areas firstRead areas,
        ih laterRead later, categoryEntries_cons, List.map_append, List.map_map]
      simp [lastCategory, listedWords, Function.comp_def]

def dayEntries (days : List PrintedDay) : List (Nat × Text × PrintedArea) :=
  days.flatMap fun day => categoryEntries day.day day.categories

theorem dayEntries_cons (day : PrintedDay) (days : List PrintedDay)
    : dayEntries (day :: days) = categoryEntries day.day day.categories ++ dayEntries days := by
  rw [dayEntries, List.flatMap_cons]
  rfl

section Days

variable {days : List PrintedDay}
  (read : ∀ entry ∈ dayEntries days, IsThreshold entry.2.2.label)
include read

/-- Days in a row whose headings start nothing, by induction on them. -/
theorem scanAreas_days {category : Option Text} (quiet : QuietHeadings words category.isSome days)
    {list : List Text}
    (printed : List.Forall₂ OutlookLine.IsPrintedAs (days.flatMap PrintedDay.lines) list)
    : scanAreas words category none list = (dayEntries days).map listedWords := by
  induction days generalizing list category with
  | nil =>
      obtain rfl := List.forall₂_nil_left_iff.mp printed
      rfl
  | cons day days ih =>
      rw [List.flatMap_cons] at printed
      obtain ⟨front, back, here, later, rfl⟩ := exists_append_of_forall₂ printed
      obtain ⟨line, lines, isHeading, categories, rfl⟩ := List.forall₂_cons_left_iff.mp here
      obtain rfl : line = day.heading := isHeading
      obtain ⟨nothing, quietLater⟩ := quiet
      rw [← isSome_lastCategory] at quietLater
      have skipped : category = none ∨ thresholdOf words day.heading = none := by
        cases category with
        | none => exact .inl rfl
        | some name => exact .inr (nothing rfl)
      rw [dayEntries_cons] at read
      rw [List.cons_append, scanAreas_more (heading_printed day) (heading_ne_areaEnd day) skipped,
        Option.map_none,
        scanAreas_categories day.day
          (fun entry member => read entry (List.mem_append_left _ member)) categories,
        ih (fun entry member => read entry (List.mem_append_right _ member)) quietLater later,
        dayEntries_cons, List.map_append]

/-- Every area is read, and nothing else only if the headings start nothing. By induction on the
days.
-/
theorem length_scanAreas_days {category : Option Text} {list : List Text}
    (printed : List.Forall₂ OutlookLine.IsPrintedAs (days.flatMap PrintedDay.lines) list)
    : (dayEntries days).length ≤ (scanAreas words category none list).length
      ∧ ((scanAreas words category none list).length = (dayEntries days).length
          → QuietHeadings words category.isSome days) := by
  induction days generalizing list category with
  | nil => exact ⟨Nat.zero_le _, fun _ => trivial⟩
  | cons day days ih =>
      rw [List.flatMap_cons] at printed
      obtain ⟨front, back, here, later, rfl⟩ := exists_append_of_forall₂ printed
      obtain ⟨line, lines, isHeading, categories, rfl⟩ := List.forall₂_cons_left_iff.mp here
      obtain rfl : line = day.heading := isHeading
      rw [dayEntries_cons] at read
      obtain ⟨least, exact⟩ := @ih (fun entry member => read entry (List.mem_append_right _ member))
        (lastCategory category day.categories) back later
      have behind : (scanAreas words category none (lines ++ back)).length
          = (categoryEntries day.day day.categories).length
            + (scanAreas words (lastCategory category day.categories) none back).length := by
        rw [scanAreas_categories day.day
          (fun entry member => read entry (List.mem_append_left _ member)) categories,
          List.length_append, List.length_map]
      have count : (dayEntries (day :: days)).length
          = (categoryEntries day.day day.categories).length + (dayEntries days).length := by
        rw [dayEntries_cons, List.length_append]
      rw [isSome_lastCategory] at exact
      rw [List.cons_append]
      by_cases skipped : category = none ∨ thresholdOf words day.heading = none
      · rw [scanAreas_more (heading_printed day) (heading_ne_areaEnd day) skipped, Option.map_none,
          behind, count]
        refine ⟨by omega, fun same => ⟨fun seen => ?_, exact (by omega)⟩⟩
        refine skipped.resolve_left fun none => ?_
        rw [none] at seen
        cases seen
      · obtain ⟨seen, starts⟩ := not_or.mp skipped
        obtain ⟨current, rfl⟩ := Option.ne_none_iff_exists'.mp seen
        obtain ⟨⟨threshold, rest⟩, found⟩ := Option.ne_none_iff_exists'.mp starts
        rw [scanAreas_start (heading_printed day) (heading_ne_areaEnd day) found,
          Option.toList_none, List.nil_append, length_scanAreas, behind, count]
        simp only [Option.toList_some, List.length_singleton]
        exact ⟨by omega, fun same => absurd same (by omega)⟩

end Days

-----------------------------------------------------------------------------------------
-- Outlines
-----------------------------------------------------------------------------------------

/-- Points are taken until a separator comes, by induction on them. -/
theorem parsePolygonTokensFrom_append {tokens : List Text}
    (packed : ∀ token ∈ tokens, IsPackedPair token) (current rest : List Text)
    : parsePolygonTokensFrom (F := ℚ) current (tokens ++ rest)
      = parsePolygonTokensFrom (current ++ tokens) rest := by
  induction tokens generalizing current with
  | nil => rw [List.nil_append, List.append_nil]
  | cons token tokens ih =>
      have here := packed token (by simp)
      rw [List.cons_append, parsePolygonTokensFrom, if_neg here.noSeparator,
        if_pos ⟨here.utf8Len_eq, here.digits⟩,
        ih (fun other member => packed other (by simp [member])), List.append_assoc,
        List.singleton_append]

theorem buildPolygon_packed {tokens : List Text} (packed : ∀ token ∈ tokens, IsPackedPair token)
    : buildPolygon (F := ℚ) tokens
      = .ok (if 3 ≤ tokens.length then some (outlinePolygon tokens) else none) := by
  by_cases few : tokens.length < 3
  · rw [buildPolygon, if_pos few, if_neg (by omega)]
    rfl
  · rw [buildPolygon, if_neg few, if_pos (by omega), tokenPoints_packed packed]
    rfl

/-- The outlines that are long enough become polygons, by induction on them. -/
theorem parsePolygonTokensFrom_outlines {outlines : List (List Text)}
    (points : ∀ outline ∈ outlines, ∀ token ∈ outline, IsPackedPair token)
    : parsePolygonTokensFrom (F := ℚ) [] ([polygonSeparator].intercalate outlines)
      = .ok ((outlines.filter fun outline => 3 ≤ outline.length).map outlinePolygon) := by
  have polygon (outline : List Text)
      : (if 3 ≤ outline.length then some (outlinePolygon outline) else none).toList
        = ([outline].filter fun outline => 3 ≤ outline.length).map outlinePolygon := by
    by_cases long : 3 ≤ outline.length <;> simp [long]
  induction outlines with
  | nil => rfl
  | cons outline outlines ih =>
      have here := points outline (by simp)
      have later := ih fun other member => points other (by simp [member])
      cases outlines with
      | nil =>
          rw [List.intercalate_singleton, ← List.append_nil outline,
            parsePolygonTokensFrom_append here, List.nil_append, parsePolygonTokensFrom,
            buildPolygon_packed here, List.append_nil, ← polygon]
          rfl
      | cons next outlines =>
          rw [List.intercalate_cons_cons, List.append_assoc, parsePolygonTokensFrom_append here,
            List.nil_append, List.singleton_append, parsePolygonTokensFrom, if_pos rfl, later,
            buildPolygon_packed here,
            show outline :: next :: outlines = [outline] ++ (next :: outlines) from rfl,
            List.filter_append, List.map_append, ← polygon]
          rfl

theorem read_listedWords {entry : Nat × Text × PrintedArea}
    (isThreshold : IsThreshold entry.2.2.label)
    : AreaWords.read (F := ℚ) (listedWords entry) = .ok (readArea entry) := by
  have words : (listedWords entry).2.2 = [polygonSeparator].intercalate entry.2.2.outlines :=
    entry.2.2.wrapped
  rw [AreaWords.read, words,
    parsePolygonTokensFrom_outlines fun outline member => (entry.2.2.points outline member).2]
  show Except.ok (⟨entry.2.1, toAsciiUppercase entry.2.2.label, _⟩ : SpcOutlookArea ℚ) = _
  rw [toAsciiUppercase_threshold isThreshold]
  rfl

/-- The areas that are read have the thresholds of their words. -/
theorem thresholds_of_mapM_read {areas : List AreaWords} {found : List (SpcOutlookArea ℚ)}
    (read : areas.mapM AreaWords.read = .ok found)
    : found.map SpcOutlookArea.threshold = areas.map fun area => toAsciiUppercase area.2.1 := by
  induction areas generalizing found with
  | nil =>
      obtain rfl := Except.ok.inj read
      rfl
  | cons area areas ih =>
      rw [List.mapM_cons] at read
      obtain ⟨first, here, read⟩ := exceptBind_ok_iff.mp read
      obtain ⟨others, later, last⟩ := exceptBind_ok_iff.mp read
      obtain rfl := Except.ok.inj last
      obtain ⟨polygons, -, isFirst⟩ := exceptBind_ok_iff.mp here
      obtain rfl := Except.ok.inj isFirst
      rw [List.map_cons, List.map_cons, ih later]

-----------------------------------------------------------------------------------------
-- Kept areas
-----------------------------------------------------------------------------------------

/-- Lines in front that name no category are passed, by induction on them. -/
theorem scanAreas_preamble {preamble : List Text}
    (quiet : ∀ line ∈ preamble, categoryName line = none) (rest : List Text)
    : scanAreas words none none (preamble ++ rest) = scanAreas words none none rest := by
  induction preamble with
  | nil => rfl
  | cons line preamble ih =>
      have later := ih fun other member => quiet other (by simp [member])
      by_cases ends : line = areaEnd
      · rw [List.cons_append, ends, scanAreas_end, later]
        rfl
      · rw [List.cons_append, scanAreas_more (quiet line (by simp)) ends (.inl rfl),
          Option.map_none, later]

theorem forall₂_plain {preamble list : List Text}
    (printed : List.Forall₂ OutlookLine.IsPrintedAs (preamble.map .plain) list)
    : list = preamble := by
  induction preamble generalizing list with
  | nil => exact List.forall₂_nil_left_iff.mp printed
  | cons line preamble ih =>
      obtain ⟨first, others, here, later, rfl⟩ := List.forall₂_cons_left_iff.mp printed
      rw [ih later, show first = line from here]

section Products

variable {product : PrintedOutlook} {text : Text} (printed : product.IsPrintedAs text)
include printed

/-- The lines of the days, which decide what is read. -/
theorem exists_dayLines
    : ∃ list,
        List.Forall₂ OutlookLine.IsPrintedAs (product.days.flatMap PrintedDay.lines) list
        ∧ parseOutlookAreas (F := ℚ) words (compactText text)
          = (scanAreas words none none list).mapM AreaWords.read := by
  obtain ⟨front, back, isFront, isBack, split⟩ := exists_append_of_forall₂ printed
  refine ⟨back, isBack, ?_⟩
  rw [parseOutlookAreas, outlookAreasFrom_eq, List.drop_zero, split, forall₂_plain isFront,
    scanAreas_preamble product.quiet]

/-- Without areas that are only marked as significant every area is read, and nothing else only if
the headings start nothing.
-/
theorem parseOutlookAreas_printed
    (read : ∀ entry ∈ product.entries, IsThreshold entry.2.2.label)
    : (∀ found, parseOutlookAreas (F := ℚ) words (compactText text) = .ok found
        → product.entries.length ≤ found.length
          ∧ (found.length = product.entries.length → QuietHeadings words false product.days))
      ∧ (QuietHeadings words false product.days
        → parseOutlookAreas (F := ℚ) words (compactText text)
          = .ok (product.entries.map readArea)) := by
  obtain ⟨list, isDays, same⟩ := @exists_dayLines words _ _ printed
  rw [same]
  constructor
  · intro found areas
    have lengths := congrArg List.length (thresholds_of_mapM_read areas)
    rw [List.length_map, List.length_map] at lengths
    rw [lengths]
    exact @length_scanAreas_days words _ read none list isDays
  · intro quiet
    rw [@scanAreas_days words _ read none quiet list isDays]
    rw [List.mapM_map]
    exact mapM_ok fun entry member => read_listedWords (read entry member)

/-- No area that is read is only marked as significant. -/
theorem threshold_ne_signLabel {found : List (SpcOutlookArea ℚ)}
    (areas : parseOutlookAreas words (compactText text) = .ok found)
    : ∀ area ∈ found, area.threshold ≠ signLabel := by
  obtain ⟨list, -, same⟩ := @exists_dayLines words _ _ printed
  rw [same] at areas
  intro area member isSign
  have listed : signLabel ∈ found.map SpcOutlookArea.threshold :=
    isSign ▸ List.mem_map_of_mem member
  rw [thresholds_of_mapM_read areas] at listed
  obtain ⟨area, inside, upper⟩ := List.mem_map.mp listed
  have isThreshold := isThreshold_of_mem_scanAreas (by simp) area inside
  rw [toAsciiUppercase_threshold isThreshold] at upper
  exact signLabel_not_threshold (upper ▸ isThreshold)

end Products

theorem dayNumbers_cases {afos : Text} {numbers : List Nat}
    (known : dayNumbersForAfos afos = some numbers)
    : numbers ∈ [[1], [2], [3], [4, 5, 6, 7, 8], [3, 4, 5, 6, 7, 8]] := by
  unfold dayNumbersForAfos at known
  split_ifs at known <;> obtain rfl := Option.some.inj known <;> decide

theorem eq_singleton_of_dayNumbers {afos : Text} {numbers : List Nat} {number : Nat}
    (known : dayNumbersForAfos afos = some numbers) (all : ∀ day ∈ numbers, day = number)
    : numbers = [number] := by
  have listed := dayNumbers_cases known
  simp only [List.mem_cons, List.not_mem_nil, or_false] at listed
  rcases listed with rfl | rfl | rfl | rfl | rfl
  · rw [all 1 (by simp)]
  · rw [all 2 (by simp)]
  · rw [all 3 (by simp)]
  · have four := all 4 (by simp)
    have five := all 5 (by simp)
    omega
  · have three := all 3 (by simp)
    have four := all 4 (by simp)
    omega

section Bulletins

variable {digits : DecimalDigits} {text : Text} {afos : Option Text}

theorem bulletin_of_parse {bulletin : SpcOutlookBulletin ℚ}
    (parsed : parseSpcOutlookBulletin digits words text afos = .ok (some bulletin))
    : ∃ numbers areas,
        afos.bind dayNumbersForAfos = some numbers
        ∧ parseOutlookAreas words (compactText text) = .ok areas
        ∧ areas ≠ []
        ∧ returnedDays (some bulletin) = numbers.map fun day => (day, areas) := by
  unfold parseSpcOutlookBulletin at parsed
  cases afos with
  | none => cases parsed
  | some afos =>
      dsimp only at parsed
      cases known : dayNumbersForAfos afos with
      | none =>
          rw [known] at parsed
          cases parsed
      | some numbers =>
          rw [known] at parsed
          obtain ⟨areas, read, parsed⟩ := exceptBind_ok_iff.mp parsed
          cases areas with
          | nil => cases parsed
          | cons area areas =>
              obtain rfl := Option.some.inj (Except.ok.inj parsed)
              refine ⟨numbers, area :: areas, known, read, by simp, ?_⟩
              simp [returnedDays, Function.comp_def]

theorem parse_of_areas {numbers : List Nat} {areas : List (SpcOutlookArea ℚ)}
    (known : afos.bind dayNumbersForAfos = some numbers)
    (read : parseOutlookAreas words (compactText text) = .ok areas) (some : areas ≠ [])
    : ∃ found,
        parseSpcOutlookBulletin digits words text afos = .ok found
        ∧ returnedDays found = numbers.map fun day => (day, areas) := by
  have isSome : ∃ bulletin,
      parseSpcOutlookBulletin (F := ℚ) digits words text afos = .ok (.some bulletin) := by
    obtain ⟨afos, rfl, afosKnown⟩ := Option.bind_eq_some_iff.mp known
    obtain ⟨area, others, rfl⟩ := List.exists_cons_of_ne_nil some
    unfold parseSpcOutlookBulletin
    simp only [afosKnown, read]
    exact ⟨_, rfl⟩
  obtain ⟨bulletin, parsed⟩ := isSome
  obtain ⟨otherNumbers, otherAreas, otherKnown, otherRead, -, returned⟩ := bulletin_of_parse parsed
  obtain rfl := Option.some.inj (known.symm.trans otherKnown)
  obtain rfl := Except.ok.inj (read.symm.trans otherRead)
  exact ⟨_, parsed, returned⟩

theorem parse_of_no_areas
    (read : parseOutlookAreas (F := ℚ) words (compactText text) = .ok [])
    : parseSpcOutlookBulletin (F := ℚ) digits words text afos = .ok none := by
  unfold parseSpcOutlookBulletin
  cases afos with
  | none => rfl
  | some afos =>
      dsimp only
      cases dayNumbersForAfos afos with
      | none => rfl
      | some numbers =>
          rw [read]
          rfl

end Bulletins

/-- An entry is listed under a day of the product. -/
theorem exists_day_of_entry {product : PrintedOutlook} {entry : Nat × Text × PrintedArea}
    (listed : entry ∈ product.entries)
    : ∃ day ∈ product.days, day.day = entry.1 := by
  obtain ⟨day, member, inside⟩ := List.mem_flatMap.mp listed
  obtain ⟨category, -, inside⟩ := List.mem_flatMap.mp inside
  obtain ⟨area, -, rfl⟩ := List.mem_map.mp inside
  exact ⟨day, member, rfl⟩

/-- Areas that are all read are what is listed exactly if no outline is too short. -/
theorem map_readArea_eq_iff {entries : List (Nat × Text × PrintedArea)}
    : entries.map readArea = entries.map listedArea
      ↔ ∀ entry ∈ entries, ∀ outline ∈ entry.2.2.outlines, 3 ≤ outline.length := by
  rw [List.map_inj_left]
  refine forall₂_congr fun entry _ => ?_
  constructor
  · intro same
    have polygons := congrArg (List.length ∘ SpcOutlookArea.polygons) same
    simp only [Function.comp_apply, readArea, listedArea, List.length_map] at polygons
    simpa using List.length_filter_eq_length_iff.mp polygons
  · intro long
    rw [readArea, listedArea, List.filter_eq_self.mpr (by simpa using long)]

/-- Areas that are those of a day's entries are all there are, and the entries are all of that
day.
-/
theorem entries_of_areasOf {product : PrintedOutlook} {areas : List (SpcOutlookArea ℚ)} {number : Nat}
    (ofDay : areas = product.areasOf number) (least : product.entries.length ≤ areas.length)
    : areas.length = product.entries.length ∧ ∀ entry ∈ product.entries, entry.1 = number := by
  have length : areas.length
      = (product.entries.filter fun entry => entry.1 = number).length := by
    rw [ofDay, PrintedOutlook.areasOf, List.length_map]
  have most :=
    List.length_filter_le (fun entry => decide (entry.1 = number)) product.entries
  have lengths : areas.length = product.entries.length := by omega
  have all := List.length_filter_eq_length_iff.mp (length.symm.trans lengths)
  exact ⟨lengths, fun entry member => of_decide_eq_true (all entry member)⟩

/-- A product whose days all keep their areas has one day. -/
theorem oneDay_of_kept {product : PrintedOutlook} {text : Text}
    (printed : product.IsPrintedAs text) {digits : DecimalDigits} {words : WordCharacters}
    {afos : Option Text} (kept : product.KeepsAreas digits words text afos)
    (several : product.days ≠ [])
    : product.OneDay words afos := by
  obtain ⟨found, parsed, days, keeps⟩ := kept
  obtain ⟨first, member⟩ := List.exists_mem_of_ne_nil _ several
  cases found with
  | none => exact absurd (days first member) (by simp [returnedDays])
  | some bulletin =>
      obtain ⟨numbers, areas, known, read, some, returned⟩ := bulletin_of_parse parsed
      have isNumber : ∀ day ∈ product.days, day.day ∈ numbers := by
        intro day member
        simpa [returned, Function.comp_def] using days day member
      have ofDay : ∀ number ∈ numbers, areas = product.areasOf number := by
        intro number member
        exact keeps (number, areas) (by simp [returned, member])
      have unsigned : ∀ entry ∈ product.entries, entry.2.2.label ≠ signLabel := by
        intro entry listed isSign
        obtain ⟨day, member, same⟩ := exists_day_of_entry listed
        have areasSame := ofDay day.day (isNumber day member)
        refine threshold_ne_signLabel printed read (listedArea entry) ?_ isSign
        rw [areasSame]
        exact List.mem_map_of_mem (List.mem_filter.mpr ⟨listed, by simp [same]⟩)
      obtain ⟨counted, exact⟩ := @parseOutlookAreas_printed words _ _ printed
        fun entry listed => entry.2.2.isLabel.resolve_right (unsigned entry listed)
      obtain ⟨least, quiet⟩ := counted areas read
      have whole : ∀ number ∈ numbers,
          areas.length = product.entries.length
          ∧ ∀ entry ∈ product.entries, entry.1 = number :=
        fun number member => entries_of_areasOf (ofDay number member) least
      have number : first.day ∈ numbers := isNumber first member
      obtain ⟨lengths, ofFirst⟩ := whole first.day number
      have quietHeadings := quiet lengths
      have listed : product.entries ≠ [] := by
        intro none
        rw [none] at lengths
        exact some (List.eq_nil_of_length_eq_zero lengths)
      obtain ⟨entry, entryListed⟩ := List.exists_mem_of_ne_nil _ listed
      have single : numbers = [entry.1] := by
        obtain ⟨name, -, known⟩ := Option.bind_eq_some_iff.mp known
        exact eq_singleton_of_dayNumbers known fun number member =>
          ((whole number member).2 entry entryListed).symm
      refine ⟨⟨entry.1, single ▸ known, fun day member => ?_⟩, listed, fun entry member => ?_,
        quietHeadings⟩
      · simpa [single] using isNumber day member
      · refine ⟨unsigned entry member, ?_⟩
        have readAreas : areas = product.entries.map readArea :=
          Except.ok.inj (read.symm.trans (exact quietHeadings))
        have listedAreas := ofDay first.day number
        rw [PrintedOutlook.areasOf, List.filter_eq_self.mpr (by simpa using ofFirst),
          readAreas] at listedAreas
        exact map_readArea_eq_iff.mp listedAreas entry member

/-- One day keeps its areas. -/
theorem kept_of_oneDay {product : PrintedOutlook} {text : Text}
    (printed : product.IsPrintedAs text) {digits : DecimalDigits} {words : WordCharacters}
    {afos : Option Text} (oneDay : product.OneDay words afos)
    : product.KeepsAreas digits words text afos := by
  obtain ⟨⟨number, known, sameDay⟩, listed, read, headings⟩ := oneDay
  obtain ⟨-, exact⟩ := @parseOutlookAreas_printed words _ _ printed
    fun entry member => entry.2.2.isLabel.resolve_right (read entry member).1
  have some : product.entries.map readArea ≠ [] := by simpa using listed
  obtain ⟨found, parsed, returned⟩ := @parse_of_areas words digits _ _ _ _ known
    (exact headings) some
  refine ⟨found, parsed, fun day member => by simp [returned, sameDay day member], ?_⟩
  rw [returned]
  simp only [List.map_cons, List.map_nil, List.forall_mem_singleton]
  have all : product.entries.filter (fun entry => entry.1 = number) = product.entries := by
    refine List.filter_eq_self.mpr fun entry member => ?_
    obtain ⟨day, inside, same⟩ := exists_day_of_entry member
    simp [← same, sameDay day inside]
  rw [PrintedOutlook.areasOf, all]
  exact map_readArea_eq_iff.mpr fun entry member => (read entry member).2

/-- What is read has the areas of each day of the product exactly if there is one day, if all its
labels and outlines are read, and if the headings are not taken for areas.
-/
theorem keepsAreas_iff {product : PrintedOutlook} {text : Text}
    (printed : product.IsPrintedAs text) (digits : DecimalDigits) (words : WordCharacters)
    (afos : Option Text)
    : product.KeepsAreas digits words text afos
      ↔ product.days = [] ∨ product.OneDay words afos := by
  constructor
  · intro kept
    rw [or_iff_not_imp_left]
    exact oneDay_of_kept printed kept
  · rintro (none | oneDay)
    · have empty : product.entries = [] := by
        rw [PrintedOutlook.entries, none, List.flatMap_nil]
      obtain ⟨-, exact⟩ := @parseOutlookAreas_printed words _ _ printed (by simp [empty])
      have read := exact (by rw [none]; trivial)
      rw [empty] at read
      exact ⟨_, parse_of_no_areas read, by simp [none], by simp [returnedDays]⟩
    · exact kept_of_oneDay printed oneDay

-----------------------------------------------------------------------------------------
-- A day, and two days
-----------------------------------------------------------------------------------------

/-- The classes for texts of ASCII characters. -/
def asciiWords : WordCharacters where
  accepts c := c.isAlphanum || c = '_'
  ascii _ _ := rfl
  blank c blank := by
    rw [Bool.or_eq_false_iff, decide_eq_false_iff_not]
    constructor
    · cases shown : c.isAlphanum with
      | false => rfl
      | true =>
          rw [isWhitespace_of_isAlphanum shown] at blank
          cases blank
    · rintro rfl
      cases blank

/-- The ASCII digits. -/
def asciiDigits : DecimalDigits := .asciiOnly

def triangle : List Text := ["49061987".toList, "48451952".toList, "47761927".toList]

theorem triangle_points
    : ∀ outline ∈ [triangle], outline ≠ [] ∧ ∀ token ∈ outline, IsPackedPair token := by
  decide

/-- An area of one outline, wrapped behind its second point. -/
def wrappedArea (label : Text) (isLabel : IsThreshold label) : PrintedArea where
  label := label
  outlines := [triangle]
  firstWords := ["49061987".toList, "48451952".toList]
  moreLines := [("47761927".toList, [])]
  isLabel := .inl isLabel
  outlined := by decide
  points := triangle_points
  wrapped := by decide

def severeDay (day : Nat) (label : Text) (isLabel : IsThreshold label) : PrintedDay where
  title := "SEVERE WEATHER".toList
  day := day
  categories :=
    [{ name := "ANY SEVERE".toList
       areas := [wrappedArea label isLabel]
       isName := by decide }]

theorem severeDay_printed {day : Nat} {label : Text} {isLabel : IsThreshold label}
    {heading area : Text} (isHeading : heading = (severeDay day label isLabel).heading)
    (isArea : area = label ++ " 49061987 48451952".toList)
    : List.Forall₂ OutlookLine.IsPrintedAs (severeDay day label isLabel).lines
        [heading, "... ANY SEVERE ...".toList, area, "47761927".toList, "&&".toList] := by
  refine .cons isHeading (.cons ?_ (.cons ?_ (.cons ?_ (.cons rfl .nil))))
  · exact ⟨" ".toList, " ".toList, by decide, by decide, rfl⟩
  · refine ⟨[(" ".toList, "49061987".toList), (" ".toList, "48451952".toList)], by decide, rfl, ?_⟩
    rw [isArea]
    rfl
  · exact ⟨[], nofun, rfl, by decide⟩

theorem isThreshold_fifteen : IsThreshold "0.15".toList :=
  .inr ⟨"0".toList, "15".toList, by decide, by decide, by decide, by decide, by decide⟩

theorem isThreshold_thirty : IsThreshold "0.30".toList :=
  .inr ⟨"0".toList, "30".toList, by decide, by decide, by decide, by decide, by decide⟩

/-- A product of the third day, with one area. -/
def thirdDay : PrintedOutlook where
  preamble := []
  days := [severeDay 3 "0.15".toList isThreshold_fifteen]
  quiet := nofun

def thirdDayText : Text :=
  ("SEVERE WEATHER OUTLOOK POINTS DAY 3\n... ANY SEVERE ...\n0.15 49061987 48451952\n"
    ++ "  47761927\n&&").toList

theorem thirdDay_printed : thirdDay.IsPrintedAs thirdDayText := by
  have shown : shownLines (lines (compactText thirdDayText))
      = ["SEVERE WEATHER OUTLOOK POINTS DAY 3".toList, "... ANY SEVERE ...".toList,
          "0.15 49061987 48451952".toList, "47761927".toList, "&&".toList] := by
    decide +kernel
  rw [PrintedOutlook.IsPrintedAs, shown]
  exact severeDay_printed (by decide) (by decide)

theorem thirdDay_kept
    : thirdDay.KeepsAreas asciiDigits asciiWords thirdDayText (some "PTSDY3".toList) := by
  refine (keepsAreas_iff thirdDay_printed asciiDigits asciiWords _).mpr (.inr ⟨?_, ?_, ?_, ?_⟩)
  · refine ⟨3, by decide +kernel, fun day listed => ?_⟩
    rw [List.mem_singleton.mp listed]
    rfl
  · exact List.cons_ne_nil _ _
  · intro entry listed
    rw [List.mem_singleton.mp listed]
    exact ⟨by decide, by decide⟩
  · exact ⟨nofun, trivial⟩

/-- A product of two days, with one area on each. -/
def twoDays : PrintedOutlook where
  preamble := []
  days :=
    [severeDay 4 "0.15".toList isThreshold_fifteen, severeDay 5 "0.30".toList isThreshold_thirty]
  quiet := nofun

def twoDaysText : Text :=
  ("SEVERE WEATHER OUTLOOK POINTS DAY 4\n... ANY SEVERE ...\n0.15 49061987 48451952\n"
    ++ "  47761927\n&&\n"
    ++ "SEVERE WEATHER OUTLOOK POINTS DAY 5\n... ANY SEVERE ...\n0.30 49061987 48451952\n"
    ++ "  47761927\n&&").toList

/-- Both days are returned with the areas of both. -/
theorem twoDays_mixed
    : twoDays.IsPrintedAs twoDaysText
      ∧ ¬ twoDays.KeepsAreas asciiDigits asciiWords twoDaysText (some "PTSD48".toList) := by
  constructor
  · have shown : shownLines (lines (compactText twoDaysText))
        = ["SEVERE WEATHER OUTLOOK POINTS DAY 4".toList, "... ANY SEVERE ...".toList,
            "0.15 49061987 48451952".toList, "47761927".toList, "&&".toList]
          ++ ["SEVERE WEATHER OUTLOOK POINTS DAY 5".toList, "... ANY SEVERE ...".toList,
            "0.30 49061987 48451952".toList, "47761927".toList, "&&".toList] := by
      decide +kernel
    rw [PrintedOutlook.IsPrintedAs, shown]
    exact List.rel_append (severeDay_printed (by decide) (by decide))
      (severeDay_printed (by decide) (by decide))
  · rintro ⟨found, parsed, days, keeps⟩
    cases found with
    | none => exact absurd (days _ (List.mem_cons_self ..)) (by simp [returnedDays])
    | some bulletin =>
        obtain ⟨numbers, areas, known, -, -, returned⟩ := bulletin_of_parse parsed
        have numbersOf : (some "PTSD48".toList).bind dayNumbersForAfos = some [4, 5, 6, 7, 8] := by
          decide +kernel
        obtain rfl := Option.some.inj (numbersOf.symm.trans known)
        have four := keeps (4, areas) (by simp [returned])
        have five := keeps (5, areas) (by simp [returned])
        have same : (twoDays.areasOf 4).map SpcOutlookArea.threshold
            = (twoDays.areasOf 5).map SpcOutlookArea.threshold := by
          rw [← four, ← five]
        exact absurd same (by decide)

end Emwin.Parser
