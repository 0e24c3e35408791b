import Emwin.Library.Tokens
import Emwin.Parser.SpcOutlook

/-! Which lines start a category or an area, and the areas as words in the order of the lines. -/

namespace Emwin.Parser
open Library

-----------------------------------------------------------------------------------------
-- Categories
-----------------------------------------------------------------------------------------

/-- A name in capitals, with no blank around it. -/
structure IsCategoryName (name : Text) : Prop where
  nonempty : name ≠ []
  capitals : ∀ c ∈ name, isUpperOrBlank c = true
  starts : ∀ c ∈ name.head?, isWhitespace c = false
  ends : ∀ c ∈ name.getLast?, isWhitespace c = false

instance (name : Text) : Decidable (IsCategoryName name) :=
  decidable_of_iff
    (name ≠ [] ∧ (∀ c ∈ name, isUpperOrBlank c = true)
      ∧ (∀ c ∈ name.head?, isWhitespace c = false) ∧ ∀ c ∈ name.getLast?, isWhitespace c = false)
    ⟨fun ⟨nonempty, capitals, starts, ends⟩ => ⟨nonempty, capitals, starts, ends⟩,
      fun ⟨nonempty, capitals, starts, ends⟩ => ⟨nonempty, capitals, starts, ends⟩⟩

def dots : Text := "...".toList

/-- What the pattern of categories has behind the name. -/
def categoryTail : Regex := .concat [.many isWhitespace, .lit dots, .endOfText]

theorem head?_run_categoryTail {gap : Text} (blank : ∀ c ∈ gap, isWhitespace c = true)
    : (categoryTail.run (gap ++ dots)).head? = some ⟨gap ++ dots, [], []⟩ := by
  obtain ⟨after, first⟩ := @Regex.runMany_stopped isWhitespace gap dots blank (by decide)
  exact @Regex.head?_run_seq (.many isWhitespace) (.concat [.lit dots, .endOfText]) (gap ++ dots) []
    after ⟨gap, dots, []⟩ ⟨dots, [], []⟩ first nofun rfl

/-- The rest of a name is in the way of the tail. -/
theorem run_categoryTail_eq_nil {rest gap : Text} (some : rest ≠ [])
    (capitals : ∀ c ∈ rest, isUpperOrBlank c = true)
    (ends : ∀ c ∈ rest.getLast?, isWhitespace c = false)
    : categoryTail.run (rest ++ gap) = [] := by
  refine Regex.run_seq_eq_nil fun left member => ?_
  obtain ⟨split, blank⟩ := Regex.runMany_split member
  refine Regex.run_seq_eq_nil fun dotted found => ?_
  exfalso
  have behind : left.rest = dots ++ dotted.rest := by
    rw [Regex.run_split found, Regex.run_lit found]
  rw [behind] at split
  rcases List.append_eq_append_iff.mp split with ⟨more, longer, -⟩ | ⟨more, shorter, rests⟩
  · obtain ⟨front, last, rfl⟩ := (List.eq_nil_or_concat' rest).resolve_left some
    have visible := ends last (by simp)
    have taken := blank last (by simp [longer])
    rw [taken] at visible
    cases visible
  · cases more with
    | nil =>
        rw [List.append_nil] at shorter
        obtain ⟨front, last, rfl⟩ := (List.eq_nil_or_concat' rest).resolve_left some
        have visible := ends last (by simp)
        have taken := blank last (by simp [← shorter])
        rw [taken] at visible
        cases visible
    | cons c more =>
        have dot : '.' = c := (List.cons.inj rests).1
        have capital := capitals c (by simp [shorter])
        rw [← dot] at capital
        cases capital

/-- The line of a category names it. -/
theorem categoryName_eq {name front back : Text} (isName : IsCategoryName name)
    (frontBlank : ∀ c ∈ front, isWhitespace c = true)
    (backBlank : ∀ c ∈ back, isWhitespace c = true)
    : categoryName (dots ++ (front ++ (name ++ (back ++ dots)))) = some name := by
  obtain ⟨c, rest, rfl⟩ := List.exists_cons_of_ne_nil isName.nonempty
  have capital := isName.capitals c (by simp)
  have stops : ∀ d ∈ (c :: (rest ++ (back ++ dots))).head?, isWhitespace d = false := by
    intro d starts
    obtain rfl : c = d := by simpa using starts
    exact isName.starts c rfl
  obtain ⟨before, after, lazily, shorter⟩ :=
    @Regex.run_lazily_split isUpperOrBlank rest
      (fun d member => isName.capitals d (by simp [member])) (back ++ dots)
  let named (found : RegexMatch) : RegexMatch :=
    ⟨c :: found.taken, found.rest, [("name", c :: found.taken)]⟩
  have names : (Regex.group "name" (.seq (.cls isUpperOrBlank) (.lazily isUpperOrBlank))).run
      (c :: (rest ++ (back ++ dots)))
      = before.map named ++ named ⟨rest, back ++ dots, []⟩ :: after.map named := by
    have noCaptures (found : RegexMatch)
        (member : found ∈ before ++ ⟨rest, back ++ dots, []⟩ :: after)
        : found.captures = [] := by
      rw [← lazily] at member
      exact Regex.runMany_captures (List.mem_reverse.mp member)
    have all : (Regex.group "name" (.seq (.cls isUpperOrBlank) (.lazily isUpperOrBlank))).run
        (c :: (rest ++ (back ++ dots)))
        = (before ++ ⟨rest, back ++ dots, []⟩ :: after).map fun found =>
            ⟨c :: found.taken, found.rest, ("name", c :: found.taken) :: found.captures⟩ := by
      rw [← lazily]
      simp only [Regex.run, capital, if_true, List.flatMap_singleton, List.map_map]
      rfl
    rw [all, ← List.map_cons, ← List.map_append]
    refine List.map_congr_left fun found member => ?_
    rw [noCaptures found member]
  obtain ⟨afterFront, blanks⟩ := @Regex.runMany_stopped isWhitespace front
    (c :: (rest ++ (back ++ dots))) frontBlank stops
  have tail := head?_run_categoryTail backBlank
  have stuck : ∀ other ∈ before.map named, categoryTail.run other.rest = [] := by
    intro other member
    obtain ⟨inner, inside, rfl⟩ := List.mem_map.mp member
    obtain ⟨more, some, parts, left⟩ := shorter inner inside
    have suffix : more <:+ c :: rest := ⟨c :: inner.taken, by simp [parts]⟩
    have last : (c :: rest).getLast? = more.getLast? := by
      rw [parts, ← List.cons_append, List.getLast?_append_of_ne_nil _ some]
    have nothing : categoryTail.run (more ++ (back ++ dots)) = [] :=
      run_categoryTail_eq_nil some (fun d inside => isName.capitals d (suffix.subset inside))
        fun d ends => isName.ends d (by rwa [last])
    rw [← nothing, ← left]
  have behindName := @Regex.head?_run_seq _ categoryTail _ _ _ _ _ names stuck tail
  have behindBlanks := @Regex.head?_run_seq (.many isWhitespace) _ _ [] afterFront _ _ blanks nofun
    behindName
  have whole := @Regex.head?_run_seq (.lit dots) _ _ [] [] _ _ (Regex.run_lit_append dots _) nofun
    behindBlanks
  have first : categoryRe.captures? (dots ++ (front ++ (c :: rest ++ (back ++ dots))))
      = some [("name", c :: rest)] :=
    congrArg (Option.map RegexMatch.captures) whole
  rw [categoryName, first]
  rfl

/-- A line that names a category starts and ends with dots. -/
theorem dots_around_of_categoryName {line name : Text} (found : categoryName line = some name)
    : dots <+: line ∧ dots <:+ line := by
  obtain ⟨captures, matched, -⟩ := Option.bind_eq_some_iff.mp found
  obtain ⟨found, member⟩ := Regex.mem_run_of_captures matched
  constructor
  · obtain ⟨left, leftMember, right, rightMember, rfl⟩ := Regex.mem_run_seq.mp member
    exact ⟨left.rest, by rw [Regex.run_split leftMember, Regex.run_lit leftMember]; rfl⟩
  · obtain ⟨suffix, inside, right, rightMember, -⟩ := @Regex.run_concat_suffix
      [.lit dots, .many isWhitespace,
        .group "name" (.seq (.cls isUpperOrBlank) (.lazily isUpperOrBlank)), .many isWhitespace]
      [.lit dots, .endOfText] line found member
    obtain ⟨dotted, dottedMember, ending, endingMember, -⟩ := Regex.mem_run_seq.mp rightMember
    obtain ⟨last, lastMember, -⟩ := Regex.mem_run_seq.mp endingMember
    have whole : suffix = dots := by
      rw [Regex.run_split dottedMember, Regex.run_lit dottedMember,
        (Regex.run_endOfText lastMember).1, List.append_nil]
    rwa [whole] at inside

theorem categoryName_eq_none {line : Text} (other : ¬ dots <+: line)
    : categoryName line = none := by
  cases found : categoryName line with
  | none => rfl
  | some name => exact absurd (dots_around_of_categoryName found).1 other

-----------------------------------------------------------------------------------------
-- Thresholds
-----------------------------------------------------------------------------------------

/-- Digits, a point and two digits. -/
structure IsProbability (label : Text) : Prop where
  digits
    : ∃ whole hundredths,
        label = whole ++ '.' :: hundredths ∧ whole ≠ [] ∧ hundredths.length = 2
        ∧ (∀ c ∈ whole, c.isDigit = true) ∧ ∀ c ∈ hundredths, c.isDigit = true

/-- The label of an area that is read. -/
def IsThreshold (label : Text) : Prop := label ∈ thresholdNames ∨ IsProbability label

def numberRe : Regex :=
  .concat [.many1 Char.isDigit, .lit ".".toList, .sequence [Char.isDigit, Char.isDigit]]

theorem mem_run_numberRe {text : Text} {found : RegexMatch} (member : found ∈ numberRe.run text)
    : IsProbability found.taken ∧ found.captures = [] := by
  obtain ⟨whole, wholeMember, behind, behindMember, rfl⟩ := Regex.mem_run_seq.mp member
  obtain ⟨point, pointMember, last, lastMember, rfl⟩ := Regex.mem_run_seq.mp behindMember
  obtain ⟨two, twoMember, nothing, nothingMember, rfl⟩ := Regex.mem_run_seq.mp lastMember
  obtain ⟨first, firstMember, more, moreMember, rfl⟩ := Regex.mem_run_seq.mp wholeMember
  obtain rfl := List.mem_singleton.mp nothingMember
  obtain ⟨c, rest, -, digit, rfl⟩ := Regex.mem_run_cls.mp firstMember
  obtain ⟨-, twoCaptures, pair⟩ := Regex.mem_run_sequence.mp twoMember
  obtain ⟨-, pointIs⟩ := Regex.eq_of_mem_run_lit pointMember
  obtain ⟨-, moreDigits⟩ := Regex.runMany_split moreMember
  have moreCaptures := Regex.runMany_captures moreMember
  rw [pointIs]
  refine ⟨⟨[c] ++ more.taken, two.taken, by simp, by simp, ?_, ?_, ?_⟩, ?_⟩
  · simpa using pair.length_eq.symm
  · simpa using And.intro digit moreDigits
  · generalize two.taken = pairText at pair
    cases pair with
    | @cons _ first _ _ firstDigit pair =>
        cases pair with
        | @cons _ second _ _ secondDigit pair =>
            cases pair with
            | nil => simpa using And.intro firstDigit secondDigit
  · simp [moreCaptures, twoCaptures]

theorem thresholdRe_run (text : Text)
    : thresholdRe.run text
      = (numberRe.run text ++ thresholdNames.flatMap fun name => (Regex.lit name).run text).map
          fun found =>
            { found with captures := ("threshold", found.taken) :: found.captures } := by
  rw [thresholdRe, Regex.run, Regex.run_foldl_alt]
  rfl

variable (words : WordCharacters)

/-- A match takes a threshold, and captures it. -/
theorem mem_run_thresholdRe {text : Text} {found : RegexMatch}
    (member : found ∈ thresholdRe.run text)
    : IsThreshold found.taken ∧ captureNamed "threshold" found.captures = some found.taken := by
  rw [thresholdRe_run] at member
  obtain ⟨inner, inside, rfl⟩ := List.mem_map.mp member
  refine ⟨?_, by simp [captureNamed]⟩
  rcases List.mem_append.mp inside with number | name
  · exact .inr (mem_run_numberRe number).1
  · obtain ⟨name, listed, isName⟩ := List.mem_flatMap.mp name
    rw [show inner.taken = name from Regex.run_lit isName]
    exact .inl listed

/-- A threshold is a name or a probability. -/
theorem isThreshold_of_thresholdOf {line label rest : Text}
    (found : thresholdOf words line = some (label, rest))
    : IsThreshold label ∧ line = label ++ rest := by
  obtain ⟨matched, first, captured⟩ := Option.bind_eq_some_iff.mp found
  obtain ⟨member, -⟩ := Regex.mem_of_matchBefore? first
  obtain ⟨isThreshold, capture⟩ := mem_run_thresholdRe member
  rw [capture] at captured
  obtain ⟨rfl, rfl⟩ := Prod.mk.inj (Option.some.inj captured)
  exact ⟨isThreshold, Regex.run_split member⟩

theorem exists_digit_of_isProbability {label : Text} (isProbability : IsProbability label)
    : ∃ c rest, label = c :: rest ∧ c.isDigit = true := by
  obtain ⟨whole, hundredths, rfl, some, -, digits, -⟩ := isProbability.digits
  obtain ⟨c, rest, rfl⟩ := List.exists_cons_of_ne_nil some
  exact ⟨c, rest ++ '.' :: hundredths, rfl, digits c (by simp)⟩

/-- A text starts with one threshold at most. -/
theorem isThreshold_unique {left right leftRest rightRest : Text} (isLeft : IsThreshold left)
    (isRight : IsThreshold right) (same : left ++ leftRest = right ++ rightRest)
    : left = right := by
  have letters : ∀ name ∈ thresholdNames, ∃ c rest, name = c :: rest ∧ c.isDigit = false := by
    have all : ∀ name ∈ thresholdNames, name.head?.any fun c => !c.isDigit := by decide
    intro name listed
    have here := all name listed
    cases name with
    | nil => cases here
    | cons c rest => exact ⟨c, rest, rfl, by simpa using here⟩
  have noNumber {name number nameRest numberRest : Text} (listed : name ∈ thresholdNames)
      (isNumber : IsProbability number) : name ++ nameRest ≠ number ++ numberRest := by
    obtain ⟨c, rest, rfl, letter⟩ := letters name listed
    obtain ⟨d, more, rfl, digit⟩ := exists_digit_of_isProbability isNumber
    intro same
    obtain rfl : c = d := (List.cons.inj same).1
    rw [letter] at digit
    cases digit
  rcases isLeft with leftName | leftNumber <;> rcases isRight with rightName | rightNumber
  · have alone : ∀ name ∈ thresholdNames, ∀ other ∈ thresholdNames,
        name <+: other → name = other := by
      decide
    rcases List.prefix_or_prefix_of_prefix (List.prefix_append left leftRest)
        (same ▸ List.prefix_append right rightRest) with shorter | longer
    · exact alone left leftName right rightName shorter
    · exact (alone right rightName left leftName longer).symm
  · exact absurd same (noNumber leftName rightNumber)
  · exact absurd same.symm (noNumber rightName leftNumber)
  · obtain ⟨whole, hundredths, rfl, -, two, digits, -⟩ := leftNumber.digits
    obtain ⟨otherWhole, otherHundredths, rfl, -, otherTwo, otherDigits, -⟩ := rightNumber.digits
    have front {whole rest : Text} (digits : ∀ c ∈ whole, c.isDigit = true)
        : (whole ++ '.' :: rest).takeWhile Char.isDigit = whole := by
      rw [List.takeWhile_append_of_pos digits, List.takeWhile_cons_of_neg (by decide),
        List.append_nil]
    have wholes := congrArg (List.takeWhile Char.isDigit) same
    rw [List.append_assoc, List.append_assoc, List.cons_append, List.cons_append, front digits,
      front otherDigits] at wholes
    obtain rfl := wholes
    rw [List.append_assoc, List.append_assoc] at same
    have behind := (List.cons.inj (List.append_cancel_left same)).2
    obtain ⟨rfl, -⟩ := List.append_inj behind (two.trans otherTwo.symm)
    rfl

theorem exists_run_thresholdRe {label : Text} (isThreshold : IsThreshold label) (rest : Text)
    : ∃ found ∈ thresholdRe.run (label ++ rest), found.rest = rest := by
  suffices inner : ∃ found ∈ numberRe.run (label ++ rest)
      ++ thresholdNames.flatMap (fun name => (Regex.lit name).run (label ++ rest)),
      found.rest = rest by
    obtain ⟨found, member, same⟩ := inner
    rw [thresholdRe_run]
    exact ⟨_, List.mem_map_of_mem member, same⟩
  rcases isThreshold with listed | isNumber
  · refine ⟨⟨label, rest, []⟩, List.mem_append_right _ ?_, rfl⟩
    refine List.mem_flatMap.mpr ⟨label, listed, ?_⟩
    rw [Regex.run_lit_append]
    exact List.mem_singleton_self _
  · obtain ⟨whole, hundredths, rfl, some, two, digits, tail⟩ := isNumber.digits
    obtain ⟨c, more, rfl⟩ := List.exists_cons_of_ne_nil some
    refine ⟨⟨c :: more ++ '.' :: hundredths, rest, []⟩, List.mem_append_left _ ?_, rfl⟩
    have wholes
        : (⟨c :: more, '.' :: (hundredths ++ rest), []⟩ : RegexMatch)
          ∈ (Regex.many1 Char.isDigit).run (c :: more ++ '.' :: hundredths ++ rest) := by
      refine Regex.mem_run_seq.mpr ⟨⟨[c], more ++ '.' :: (hundredths ++ rest), []⟩, ?_,
        ⟨more, '.' :: (hundredths ++ rest), []⟩, ?_, rfl⟩
      · exact Regex.mem_run_cls.mpr ⟨c, _, by simp, digits c (by simp), rfl⟩
      · exact Regex.mem_runMany fun d member => digits d (by simp [member])
    refine Regex.mem_run_seq.mpr ⟨_, wholes, ⟨'.' :: hundredths, rest, []⟩, ?_, rfl⟩
    refine Regex.mem_run_seq.mpr
      ⟨⟨['.'], hundredths ++ rest, []⟩, ?_, ⟨hundredths, rest, []⟩, ?_, rfl⟩
    · exact List.mem_singleton_self _
    · obtain ⟨first, second, rfl⟩ := List.length_eq_two.mp two
      refine Regex.mem_run_seq.mpr ⟨⟨[first, second], rest, []⟩, ?_, ⟨[], rest, []⟩,
        List.mem_singleton_self _, rfl⟩
      exact Regex.mem_run_sequence.mpr
        ⟨rfl, rfl, .cons (tail first (by simp)) (.cons (tail second (by simp)) .nil)⟩

theorem thresholdOf_eq {label rest : Text} (isThreshold : IsThreshold label)
    (stops : words.stops rest = true)
    : thresholdOf words (label ++ rest) = some (label, rest) := by
  obtain ⟨found, member, same⟩ := exists_run_thresholdRe isThreshold rest
  have some := Regex.matchBefore?_isSome member (by rwa [same] : words.stops found.rest = true)
  obtain ⟨first, matched⟩ := Option.isSome_iff_exists.mp some
  obtain ⟨firstMember, -⟩ := Regex.mem_of_matchBefore? matched
  obtain ⟨isFirst, capture⟩ := mem_run_thresholdRe firstMember
  have split := Regex.run_split firstMember
  have taken : label = first.taken := isThreshold_unique isThreshold isFirst split
  rw [← taken] at split
  rw [thresholdOf, matched, Option.bind_some, capture, Option.map_some, ← taken,
    List.append_cancel_left split]

theorem thresholdOf_eq_none {line : Text}
    (other : ∀ label rest, IsThreshold label → line ≠ label ++ rest)
    : thresholdOf words line = none := by
  cases found : thresholdOf words line with
  | none => rfl
  | some read =>
      obtain ⟨isThreshold, split⟩ := isThreshold_of_thresholdOf words found
      exact absurd split (other read.1 read.2 isThreshold)

-----------------------------------------------------------------------------------------
-- Areas as words
-----------------------------------------------------------------------------------------

/-- An area before its points are read: category, threshold and words. -/
abbrev AreaWords := Text × Text × List Text

/-- The areas of lines without blanks around them; the one that is pending takes the words of
lines that start nothing.
-/
def scanAreas (category : Option Text) (pending : Option AreaWords) : List Text → List AreaWords
  | [] => pending.toList
  | line :: rest =>
      match categoryName line with
      | some name => pending.toList ++ scanAreas (some (toAsciiUppercase name)) none rest
      | none =>
          if line = areaEnd then pending.toList ++ scanAreas category none rest
          else
            match startedArea words category line with
            | some (currentCategory, threshold, behind) =>
                pending.toList
                ++ scanAreas category
                    (some (currentCategory, threshold, splitWhitespace behind)) rest
            | none =>
                scanAreas category
                  (pending.map fun (current, threshold, tokens) =>
                    (current, threshold, tokens ++ splitWhitespace line))
                  rest

/-- The lines that are not blank, without the blanks around them. -/
def shownLines (list : List Text) : List Text := (list.map trim).filter (· ≠ [])

theorem shownLines_cons (line : Text) (rest : List Text)
    : shownLines (line :: rest)
      = if trim line = [] then shownLines rest else trim line :: shownLines rest := by
  rw [shownLines, List.map_cons, List.filter_cons]
  by_cases blank : trim line = [] <;> simp [blank, shownLines]

theorem categoryName_nil : categoryName [] = none := categoryName_eq_none (by decide)

theorem thresholdOf_nil : thresholdOf words [] = none := by
  refine thresholdOf_eq_none words fun label rest isThreshold same => ?_
  obtain ⟨rfl, -⟩ := List.append_eq_nil_iff.mp same.symm
  rcases isThreshold with listed | number
  · exact absurd listed (by decide)
  · obtain ⟨c, rest, none, -⟩ := exists_digit_of_isProbability number
    cases none

theorem startedArea_eq_some_iff {category : Option Text} {line current threshold behind : Text}
    : startedArea words category line = some (current, threshold, behind)
      ↔ category = some current ∧ thresholdOf words line = some (threshold, behind) := by
  cases category <;> cases found : thresholdOf words line <;> simp [startedArea, found]

theorem startedArea_eq_none {category : Option Text} {line : Text}
    (nothing : category = none ∨ thresholdOf words line = none)
    : startedArea words category line = none := by
  rcases nothing with rfl | none
  · rfl
  · cases category <;> simp [startedArea, none]

/-- The lines of points are those that a pending area takes, by induction on them. -/
theorem scanAreas_pending (category current threshold : Text) (tokens : List Text)
    (rest : List Text)
    : scanAreas words (some category) (some (current, threshold, tokens)) (shownLines rest)
      = (current, threshold, tokens ++ (rawPointLines words rest).1.flatMap splitWhitespace)
        :: scanAreas words (some category) none
            (shownLines (rest.drop (rawPointLines words rest).2)) := by
  induction rest generalizing tokens with
  | nil => simp [shownLines, scanAreas, rawPointLines]
  | cons line rest ih =>
      rw [shownLines_cons, rawPointLines]
      by_cases blank : trim line = []
      · have noEnd : ¬ ([] : Text) = areaEnd := by decide
        simp only [blank, if_true, noEnd, if_false, thresholdOf_nil, categoryName_nil,
          Option.isSome_none, Bool.false_eq_true, or_self, List.flatMap_cons, List.drop_succ_cons]
        rw [ih]
        rfl
      · rw [if_neg blank, scanAreas]
        cases name : categoryName (trim line) with
        | some found =>
            have noEnd : trim line ≠ areaEnd := by
              intro same
              rw [same] at name
              exact absurd (dots_around_of_categoryName name).1 (by decide)
            simp only [noEnd, if_false, Option.isSome_some, or_true, if_true, List.flatMap_nil,
              List.append_nil, List.drop_zero, Option.toList_some, List.singleton_append]
            rw [shownLines_cons, if_neg blank, scanAreas, name]
            rfl
        | none =>
            by_cases ends : trim line = areaEnd
            · simp only [ends, if_true, List.flatMap_nil, List.append_nil, List.drop_succ_cons,
                List.drop_zero, Option.toList_some, List.singleton_append]
            · cases label : thresholdOf words (trim line) with
              | some found =>
                  have starts : startedArea words (some category) (trim line)
                      = some (category, found.1, found.2) :=
                    (startedArea_eq_some_iff words).mpr ⟨rfl, label⟩
                  simp only [ends, if_false, Option.isSome_some, true_or, if_true,
                    List.flatMap_nil, List.append_nil, List.drop_zero, Option.toList_some,
                    List.singleton_append, starts]
                  rw [shownLines_cons, if_neg blank, scanAreas, name]
                  simp only [ends, if_false, starts]
                  rfl
              | none =>
                  simp only [ends, if_false, Option.isSome_none, Bool.false_eq_true, or_self,
                    List.flatMap_cons, List.drop_succ_cons, Option.map_some,
                    startedArea_eq_none words (.inr label)]
                  rw [ih, List.append_assoc]

section Points

variable {F : Type} [Measure F]

/-- The points of an area are read. -/
def AreaWords.read (area : AreaWords) : Except Panic (SpcOutlookArea F) := do
  let polygons ← parsePolygonTokensFrom [] area.2.2
  return ⟨area.1, toAsciiUppercase area.2.1, polygons⟩

/-- The areas are read one by one, by induction on the lines. -/
theorem outlookAreasFrom_eq (category : Option Text) (taken : Nat) (list : List Text)
    : outlookAreasFrom (F := F) words category taken list
      = (scanAreas words category none (shownLines (list.drop taken))).mapM AreaWords.read := by
  induction list generalizing category taken with
  | nil => cases taken <;> simp [outlookAreasFrom, shownLines, scanAreas]
  | cons line rest ih =>
      cases taken with
      | succ taken =>
          rw [outlookAreasFrom, ih, List.drop_succ_cons]
      | zero =>
          rw [outlookAreasFrom, List.drop_zero, shownLines_cons]
          by_cases blank : trim line = []
          · have noEnd : ¬ ([] : Text) = areaEnd := by decide
            simp only [blank, categoryName_nil, noEnd, if_false, if_true,
              startedArea_eq_none words (.inr (thresholdOf_nil words))]
            rw [ih, List.drop_zero]
          · rw [if_neg blank, scanAreas]
            cases name : categoryName (trim line) with
            | some found =>
                dsimp only
                rw [ih, List.drop_zero, Option.toList_none, List.nil_append]
            | none =>
                by_cases ends : trim line = areaEnd
                · simp only [ends, if_true]
                  rw [ih, List.drop_zero, Option.toList_none, List.nil_append]
                · simp only [ends, if_false]
                  cases starts : startedArea words category (trim line) with
                  | none =>
                      dsimp only
                      rw [ih, List.drop_zero]
                      rfl
                  | some found =>
                      obtain ⟨current, threshold, behind⟩ := found
                      obtain ⟨rfl, -⟩ := (startedArea_eq_some_iff words).mp starts
                      dsimp only
                      rw [ih, scanAreas_pending, Option.toList_none, List.nil_append,
                        List.mapM_cons, AreaWords.read, parsePolygonTokens,
                        splitWhitespace_joinWords_eq_flatMap, List.flatMap_cons,
                        splitWhitespace_trim]
                      simp only [bind_assoc, pure_bind]

end Points

end Emwin.Parser
