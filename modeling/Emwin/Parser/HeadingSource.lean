import Emwin.Parser.Headings

/-! Which lines the fields of a heading come from. -/

namespace Emwin.Parser
open Library

-----------------------------------------------------------------------------------------
-- The mark that is read
-----------------------------------------------------------------------------------------

/-- Behind blanks, which may run over line ends, a mark stands alone up to the end of a line. -/
def MarkFollows (seen mark : Text) : Prop :=
  Fits markClasses mark
  ∧ ∃ blanks after left,
      Blank blanks ∧ Blank after ∧ atLineEnd left = true
      ∧ seen = blanks ++ (mark ++ (after ++ left))

theorem captureNamed_mark (mark : Option Text)
    : captureNamed "bbb" (mark.toList.map fun m => ("bbb", m)) = mark := by
  cases mark <;> rfl

theorem Fits.upper {mark : Text} (fits : Fits markClasses mark)
    : ∃ c rest, mark = c :: rest ∧ isWhitespace c = false := by
  cases fits with
  | @cons accepts c classes rest accepted later =>
      refine ⟨c, rest, rfl, ?_⟩
      have letter : c ∈ "ACR".toList := by simpa [isOneOf] using accepted
      have cases : c = 'A' ∨ c = 'C' ∨ c = 'R' := by simpa using letter
      rcases cases with rfl | rfl | rfl <;> rfl

/-- The blanks in front of a mark are all that there are. -/
theorem Blank.dropWhile {blanks mark rest : Text} (blank : Blank blanks)
    (fits : Fits markClasses mark)
    : (blanks ++ (mark ++ rest)).dropWhile isWhitespace = mark ++ rest := by
  obtain ⟨c, more, rfl, visible⟩ := fits.upper
  rw [List.dropWhile_append_of_pos blank, List.cons_append, List.dropWhile_cons_of_neg]
  simp [visible]

theorem MarkFollows.unique {seen mark other : Text} (follows : MarkFollows seen mark)
    (again : MarkFollows seen other)
    : mark = other := by
  obtain ⟨fits, blanks, after, left, blank, -, -, rfl⟩ := follows
  obtain ⟨fits', blanks', after', left', blank', -, -, same⟩ := again
  have rests := congrArg (List.dropWhile isWhitespace) same
  rw [blank.dropWhile fits, blank'.dropWhile fits'] at rests
  exact (List.append_inj rests (by rw [← fits.length_eq, ← fits'.length_eq])).1

/-- The longest run of a class comes first. -/
theorem runMany_longest (accepts : Char → Bool) (text : Text)
    : ∃ others,
        Regex.runMany accepts text
          = ⟨text.takeWhile accepts, text.dropWhile accepts, []⟩ :: others := by
  induction text with
  | nil => exact ⟨[], rfl⟩
  | cons c text ih =>
      obtain ⟨others, found⟩ := ih
      rw [Regex.runMany]
      by_cases accepted : accepts c = true
      · rw [if_pos accepted, found, List.takeWhile_cons_of_pos accepted,
          List.dropWhile_cons_of_pos accepted]
        exact ⟨_, rfl⟩
      · rw [if_neg accepted, List.takeWhile_cons_of_neg accepted,
          List.dropWhile_cons_of_neg accepted]
        exact ⟨[], rfl⟩

theorem find?_append_mem {α : Type} {p : α → Bool} {first : List α} (second : List α)
    (holds : ∃ item ∈ first, p item = true)
    : ∃ item ∈ first, (first ++ second).find? p = some item := by
  obtain ⟨item, found⟩ := Option.isSome_iff_exists.mp (List.find?_isSome.mpr holds)
  refine ⟨item, List.mem_of_find?_eq_some found, ?_⟩
  rw [List.find?_append, found]
  rfl

theorem follows_of_bulletinMark {seen mark : Text} (read : bulletinMark seen = some (some mark))
    : MarkFollows seen mark := by
  obtain ⟨found, first, named⟩ := Option.map_eq_some_iff.mp read
  obtain ⟨member, ends⟩ := Regex.mem_of_matchBefore? first
  obtain ⟨before, taken, after, rest, blank, fits, blank', rfl, rfl⟩ := mem_run_wmoMark.mp member
  rw [captureNamed_mark] at named
  subst named
  exact ⟨fits mark rfl, before, after, rest, blank, blank', ends, rfl⟩

/-- The mark of the pattern, and the blanks behind it. -/
def markGroup : Regex := .group "bbb" (.sequence markClasses)

def markEnd : Regex := .concat [.many isWhitespace]

/-- The matches that take all blanks and a mark. -/
def markedMatches (seen : Text) : List RegexMatch :=
  ((Regex.seq markGroup markEnd).run (seen.dropWhile isWhitespace)).map
    (Regex.RegexMatch.then ⟨seen.takeWhile isWhitespace, seen.dropWhile isWhitespace, []⟩)

/-- They come before all others. -/
theorem run_wmoMark (seen : Text)
    : ∃ others, wmoMark.run seen = markedMatches seen ++ others := by
  obtain ⟨shorter, blanks⟩ := runMany_longest isWhitespace seen
  refine Exists.intro ?others ?same
  case same =>
    change ((Regex.runMany isWhitespace seen).flatMap _) = _
    rw [blanks, List.flatMap_cons]
    change (((markGroup.run _ ++ [_]).flatMap _).map _) ++ _ = _
    rw [List.flatMap_append, List.map_append, List.append_assoc]
    rfl

/-- A mark that follows is read: blanks are taken as far as they go, and a mark is preferred to
none.
-/
theorem bulletinMark_of_follows {seen mark : Text} (follows : MarkFollows seen mark)
    : bulletinMark seen = some (some mark) := by
  obtain ⟨fits, blanks, after, left, blank, blank', ends, split⟩ := id follows
  obtain ⟨others, run⟩ := run_wmoMark seen
  have behind : seen.dropWhile isWhitespace = mark ++ (after ++ left) := by
    rw [split, blank.dropWhile fits]
  have group : ⟨mark, after ++ left, [("bbb", mark)]⟩ ∈ markGroup.run (mark ++ (after ++ left)) :=
    mem_run_fits.mpr ⟨mark, _, fits, rfl, rfl⟩
  have ending : ⟨after ++ [], left, [] ++ []⟩ ∈ markEnd.run (after ++ left) :=
    Regex.mem_run_seq.mpr ⟨_, mem_run_many.mpr ⟨after, left, blank', rfl, rfl⟩, _,
      mem_run_empty.mpr rfl, rfl⟩
  have listed := Regex.mem_run_seq.mpr ⟨_, group, _, ending, rfl⟩
  rw [← behind] at listed
  obtain ⟨found, member, first⟩ :=
    @find?_append_mem _ (fun found => atLineEnd found.rest) (markedMatches seen) others
      ⟨_, List.mem_map_of_mem listed, ends⟩
  rw [← run] at first
  obtain ⟨inner, listed, rfl⟩ := List.mem_map.mp member
  obtain ⟨taken, inGroup, last, -, rfl⟩ := Regex.mem_run_seq.mp listed
  obtain ⟨other, rest, -, -, rfl⟩ := mem_run_fits.mp inGroup
  have read : bulletinMark seen = some (some other) := by
    rw [bulletinMark, Regex.matchBefore?, first]
    rfl
  rw [read, follows.unique (follows_of_bulletinMark read)]

-----------------------------------------------------------------------------------------
-- Conditioned text
-----------------------------------------------------------------------------------------

/-- A text whose second line is a heading. -/
structure HeadingSecond (text first : Text) (fields : Fields) (tail rest : Text) : Prop where
  written : text = first ++ '\n' :: (fields.text ++ (tail ++ '\n' :: rest))
  firstPlain : Plain first
  secondPlain : Plain (fields.text ++ tail)
  valid : fields.Valid
  marked : (bulletinMark tail).isSome = true

/-- The first line of a text without carriage returns. -/
theorem lines_head {text line : Text} (bare : '\r' ∉ text) (head : (lines text)[0]? = some line)
    : Plain line ∧ ∃ more, text = line ++ more ∧ (more = [] ∨ ∃ rest, more = '\n' :: rest) := by
  by_cases feed : '\n' ∈ text
  · obtain ⟨first, rest, rfl, plain⟩ := List.eq_append_cons_of_mem feed
    have bareFirst : Plain first := ⟨plain, fun member => bare (by simp [member])⟩
    rw [lines_cons bareFirst] at head
    obtain rfl := Option.some.inj head
    exact ⟨bareFirst, _, rfl, .inr ⟨rest, rfl⟩⟩
  · cases text with
    | nil => cases head
    | cons c text =>
        have single : lines (c :: text) = [c :: text] := linesFrom_last feed (by simp)
        rw [single] at head
        obtain rfl := Option.some.inj head
        exact ⟨⟨feed, bare⟩, [], by simp, .inl rfl⟩

/-- The second line of a text without carriage returns. -/
theorem nthLine_second {text line : Text} (bare : '\r' ∉ text) (second : nthLine text 1 = some line)
    : ∃ first more,
        Plain first ∧ Plain line ∧ text = first ++ '\n' :: (line ++ more)
        ∧ (more = [] ∨ ∃ rest, more = '\n' :: rest) := by
  by_cases feed : '\n' ∈ text
  · obtain ⟨first, rest, rfl, plain⟩ := List.eq_append_cons_of_mem feed
    have bareFirst : Plain first := ⟨plain, fun member => bare (by simp [member])⟩
    rw [nthLine, lines_cons bareFirst, List.getElem?_cons_succ] at second
    obtain ⟨plainLine, more, rfl, ends⟩ := lines_head (fun member => bare (by simp [member])) second
    exact ⟨first, more, bareFirst, plainLine, rfl, ends⟩
  · cases text with
    | nil => cases second
    | cons c text =>
        have single : lines (c :: text) = [c :: text] := linesFrom_last feed (by simp)
        rw [nthLine, single] at second
        cases second

theorem mem_of_mem_splitOnce {delimiter c : Char} {text : Text}
    (member : c ∈ ((splitOnce delimiter text).map Prod.snd).getD [])
    : c ∈ text := by
  unfold splitOnce at member
  split at member
  · cases member
  · next head after same =>
      have inside : c ∈ text.dropWhile (· ≠ delimiter) := by
        rw [same]
        exact List.mem_cons_of_mem _ member
      exact (List.dropWhile_sublist _).subset inside

/-- The second line of a text that is finished with a line feed. -/
theorem endsWithFeed {first line more : Text} (plain : '\n' ∉ line) (nonempty : line ≠ [])
    (ends : more = [] ∨ ∃ rest, more = '\n' :: rest)
    : ∃ rest,
        (if (first ++ '\n' :: (line ++ more)).getLast? = some '\n'
          then first ++ '\n' :: (line ++ more)
          else first ++ '\n' :: (line ++ more) ++ ['\n'])
        = first ++ '\n' :: (line ++ '\n' :: rest) := by
  rcases ends with rfl | ⟨rest, rfl⟩
  · have last : (first ++ '\n' :: (line ++ [])).getLast? = line.getLast? := by
      rw [List.append_nil, List.append_cons, List.getLast?_append_of_ne_nil _ nonempty]
    rw [last, if_neg]
    · exact ⟨[], by simp⟩
    · exact fun feed => plain (List.mem_of_getLast? feed)
  · split
    · exact ⟨rest, rfl⟩
    · exact ⟨rest ++ ['\n'], by simp⟩

/-- Conditioning makes a text whose second line is a heading. -/
theorem headingSecond_of_conditionText {digits : DecimalDigits} {input text : Text}
    (conditioned : conditionText digits input = .ok text)
    : ∃ first fields tail rest, HeadingSecond text first fields tail rest := by
  unfold conditionText at conditioned
  dsimp only at conditioned
  split at conditioned
  · cases conditioned
  · have bare : '\r' ∉ trim (input.filter fun c => c ≠ '\r' && c ≠ '\x00') := by
      intro member
      simpa using List.of_mem_filter (mem_of_mem_trim member)
    generalize trim (input.filter fun c => c ≠ '\r' && c ≠ '\x00') = trimmed at bare conditioned
    have bare : '\r' ∉ if trimmed.head? = some '\x01' then
        ((splitOnce '\n' trimmed).map Prod.snd).getD [] else trimmed := by
      split
      · exact fun member => bare (mem_of_mem_splitOnce member)
      · exact bare
    generalize (if trimmed.head? = some '\x01' then
        ((splitOnce '\n' trimmed).map Prod.snd).getD [] else trimmed) = headless at bare conditioned
    have bare : '\r' ∉ if headless.getLast? = some '\x03' then headless.dropLast else headless := by
      split
      · exact fun member => bare (List.mem_of_mem_dropLast member)
      · exact bare
    generalize (if headless.getLast? = some '\x03' then headless.dropLast else headless) = stripped
      at bare conditioned
    have bare : '\r' ∉ if ldmSequence digits stripped then stripped
        else "000 \n".toList ++ stripped := by
      split
      · exact bare
      · simpa using bare
    generalize (if ldmSequence digits stripped then stripped else "000 \n".toList ++ stripped)
      = numbered at bare conditioned
    split at conditioned
    · cases conditioned
    · next line second =>
        split at conditioned
        · next heading =>
            obtain rfl := Except.ok.inj conditioned
            obtain ⟨first, more, firstPlain, linePlain, rfl, ends⟩ := nthLine_second bare second
            obtain ⟨fields, tail, valid, rfl, marked⟩ :=
              (searchLines?_isSome_iff linePlain.1).mp heading
            obtain ⟨rest, finished⟩ := @endsWithFeed first (fields.text ++ tail) more linePlain.1
              (by simp [Fields.text]) ends
            refine ⟨first, fields, tail, rest, ?_, firstPlain, linePlain, valid, marked⟩
            rw [finished]
            simp
        · cases conditioned

-----------------------------------------------------------------------------------------
-- The window on the second line
-----------------------------------------------------------------------------------------

/-- The heading that the pattern reads on a line alone. -/
def lineHeading (line : Text) : Option WmoHeaderRef := (searchLines? wmoRe line).map wmoHeaderOf

/-- The window shows the fields of the second line and its mark; if it has none, then no mark
follows on later lines.
-/
def SecondLineShown (text first : Text) (fields : Fields) (tail : Text) : Prop :=
  ∃ seen,
    searchWindow text = first ++ '\n' :: (fields.text ++ seen)
    ∧ ((∃ blanks mark,
          Blank blanks ∧ Fits markClasses mark ∧ blanks ++ mark <+: tail ∧ blanks ++ mark <+: seen)
      ∨ (Blank tail ∧ ∀ mark, ¬ MarkFollows seen mark))

theorem bulletinMark_none {tail : Text} (read : bulletinMark tail = some none) (plain : '\n' ∉ tail)
    : Blank tail := by
  obtain ⟨found, first, named⟩ := Option.map_eq_some_iff.mp read
  obtain ⟨member, ends⟩ := Regex.mem_of_matchBefore? first
  obtain ⟨before, mark, after, rest, blank, fits, blank', rfl, rfl⟩ := mem_run_wmoMark.mp member
  rw [captureNamed_mark] at named
  subst named
  have whole : rest = [] := by
    cases rest with
    | nil => rfl
    | cons c rest =>
        have newline : c = '\n' := by simpa [atLineEnd] using ends
        exact absurd (by simp [newline]) plain
  subst whole
  intro c member
  rcases List.mem_append.mp member with inBefore | inAfter
  · exact blank c inBefore
  · exact blank' c (by simpa [markText] using inAfter)

/-- Behind the fields of a line without a mark, a heading is read wherever the window ends. -/
theorem bulletinMark_isSome_blank {tail rest seen hidden : Text} (blank : Blank tail)
    (split : seen ++ hidden = tail ++ '\n' :: rest)
    : (bulletinMark seen).isSome = true := by
  rw [bulletinMark, Option.isSome_map]
  rcases List.append_eq_append_iff.mp split with ⟨more, rfl, -⟩ | ⟨more, rfl, back⟩
  · refine Regex.matchBefore?_isSome (mem_run_wmoMark.mpr
      ⟨seen, none, [], [], fun c member => blank c (by simp [member]), by simp, by simp [Blank],
        by simp [markText], rfl⟩) rfl
  · have ends : atLineEnd more = true := by
      cases more with
      | nil => rfl
      | cons c more =>
          obtain ⟨rfl, -⟩ := List.cons.inj back
          rfl
    exact Regex.matchBefore?_isSome (mem_run_wmoMark.mpr
      ⟨tail, none, [], more, blank, by simp, by simp [Blank], by simp [markText], rfl⟩) ends

/-- A line with a mark has nothing but blanks behind it. -/
theorem MarkFollows.behind {tail mark : Text} (follows : MarkFollows tail mark)
    (plain : '\n' ∉ tail)
    : ∃ blanks after, Blank blanks ∧ Blank after ∧ tail = blanks ++ (mark ++ after) := by
  obtain ⟨-, blanks, after, left, blank, blank', ends, rfl⟩ := follows
  have whole : left = [] := by
    cases left with
    | nil => rfl
    | cons c left =>
        have newline : c = '\n' := by simpa [atLineEnd] using ends
        exact absurd (by simp [newline]) plain
  exact ⟨blanks, after, blank, blank', by simp [whole]⟩

/-- Blanks and a mark at the start of a text are those that the text starts with. -/
theorem marks_unique {text blanks mark more others mark' more' : Text} (blank : Blank blanks)
    (fits : Fits markClasses mark) (split : text = blanks ++ (mark ++ more)) (blank' : Blank others)
    (fits' : Fits markClasses mark') (split' : text = others ++ (mark' ++ more'))
    : blanks = others ∧ mark = mark' := by
  have rests := congrArg (List.dropWhile isWhitespace) (split.symm.trans split')
  rw [blank.dropWhile fits, blank'.dropWhile fits'] at rests
  obtain ⟨rfl, rfl⟩ := List.append_inj rests (by rw [← fits.length_eq, ← fits'.length_eq])
  exact ⟨List.append_cancel_right (split.symm.trans split'), rfl⟩

/-- What the window shows behind the fields is read as the line is, exactly if it shows the mark of
the line, or the line has none and none follows.
-/
theorem bulletinMark_shown_iff {tail rest seen hidden : Text} (plain : '\n' ∉ tail)
    {mark : Option Text} (read : bulletinMark tail = some mark)
    (split : seen ++ hidden = tail ++ '\n' :: rest)
    : bulletinMark seen = some mark
      ↔ (∃ blanks mark,
          Blank blanks ∧ Fits markClasses mark ∧ blanks ++ mark <+: tail ∧ blanks ++ mark <+: seen)
        ∨ (Blank tail ∧ ∀ mark, ¬ MarkFollows seen mark) := by
  cases mark with
  | none =>
      have blank := bulletinMark_none read plain
      constructor
      · intro none
        refine .inr ⟨blank, fun mark follows => ?_⟩
        rw [bulletinMark_of_follows follows] at none
        cases none
      · rintro (⟨blanks, mark, -, fits, inTail, -⟩ | ⟨-, unmarked⟩)
        · obtain ⟨c, letters, rfl, visible⟩ := fits.upper
          have space := blank c (inTail.subset (by simp))
          rw [visible] at space
          cases space
        · obtain ⟨found, same⟩ :=
            Option.isSome_iff_exists.mp (bulletinMark_isSome_blank blank split)
          cases found with
          | none => exact same
          | some mark => exact absurd (follows_of_bulletinMark same) (unmarked mark)
  | some mark =>
      have follows := follows_of_bulletinMark read
      obtain ⟨blanks, after, blank, blank', whole⟩ := follows.behind plain
      constructor
      · intro shown
        obtain ⟨fits, others, more, left, isBlank, -, -, same⟩ := follows_of_bulletinMark shown
        have both : tail ++ '\n' :: rest = others ++ (mark ++ (more ++ left ++ hidden)) := by
          rw [← split, same]
          simp
        have line : tail ++ '\n' :: rest = blanks ++ (mark ++ (after ++ '\n' :: rest)) := by
          rw [whole]
          simp
        obtain ⟨rfl, -⟩ := marks_unique blank fits line isBlank fits both
        refine .inl ⟨blanks, mark, blank, fits, ⟨after, ?_⟩, ⟨more ++ left, ?_⟩⟩
        · rw [whole, List.append_assoc]
        · rw [same, List.append_assoc]
      · rintro (⟨others, other, isBlank, fits, ⟨more, inTail⟩, ⟨further, inSeen⟩⟩ | ⟨none, -⟩)
        · obtain ⟨rfl, rfl⟩ := marks_unique blank follows.1 whole isBlank fits
            (by rw [← inTail, List.append_assoc])
          refine bulletinMark_of_follows ⟨fits, blanks, ?_⟩
          have behind : further ++ hidden = after ++ '\n' :: rest := by
            rw [← inSeen, whole] at split
            simpa using split
          rcases List.append_eq_append_iff.mp behind with ⟨cut, rfl, -⟩ | ⟨later, rfl, next⟩
          · refine ⟨further, [], blank, fun c member => blank' c (by simp [member]), rfl, ?_⟩
            rw [← inSeen]
            simp
          · refine ⟨after, later, blank, blank', ?_, ?_⟩
            · cases later with
              | nil => rfl
              | cons c later =>
                  obtain ⟨rfl, -⟩ := List.cons.inj next
                  rfl
            · rw [← inSeen]
              simp
        · obtain ⟨c, letters, rfl, visible⟩ := follows.1.upper
          have space := none c (by simp [whole])
          rw [visible] at space
          cases space

/-- The header is read from the second line alone exactly if the start of the text within the window
is no heading, or the same one, and the window shows the second line as far as it matters.
-/
theorem parseWmo_secondLine_iff {digits : DecimalDigits} {input text : Text}
    (conditioned : conditionText digits input = .ok text)
    : ∃ first fields tail rest,
        HeadingSecond text first fields tail rest
        ∧ ((∃ header,
              (nthLine text 1).bind lineHeading = some header ∧ parseWmo text = .ok header)
          ↔ headingAt (searchWindow text) = headingAt (fields.text ++ tail)
            ∨ headingAt (searchWindow text) = none ∧ SecondLineShown text first fields tail) := by
  obtain ⟨first, fields, tail, rest, shape⟩ := headingSecond_of_conditionText conditioned
  refine ⟨first, fields, tail, rest, shape, ?_⟩
  obtain ⟨written, firstPlain, secondPlain, valid, marked⟩ := shape
  have tailPlain : '\n' ∉ tail := fun member => secondPlain.1 (by simp [member])
  obtain ⟨mark, read⟩ := Option.isSome_iff_exists.mp marked
  have second : nthLine text 1 = some (fields.text ++ tail) := by
    rw [nthLine, written, lines_cons firstPlain, ← List.append_assoc, lines_cons secondPlain]
    rfl
  have own : headingAt (fields.text ++ tail) = some (fields.header mark) := by
    rw [headingAt_fields valid, read]
    rfl
  have alone : lineHeading (fields.text ++ tail) = some (fields.header mark) := by
    rw [lineHeading, searchLines?_header, lineStarts_plain secondPlain.1, List.findSome?_cons, own]
  have window := searchLines?_window firstPlain.1 tailPlain valid marked written
  rw [second, Option.bind_some, alone, own]
  simp only [Option.some.injEq, parseWmo_eq_ok_iff, window, exists_eq_left']
  cases heading : headingAt (searchWindow text) with
  | some header => simp
  | none =>
      simp only [Option.none_or, reduceCtorEq, false_or, true_and]
      obtain ⟨hidden, whole⟩ := searchWindow_prefix text
      unfold markInView SecondLineShown
      generalize searchWindow text = shown at whole
      have split {seen : Text} (same : shown = first ++ '\n' :: (fields.text ++ seen))
          : seen ++ hidden = tail ++ '\n' :: rest := by
        rw [same, written] at whole
        simpa using whole
      constructor
      · intro found
        split at found
        · next visible =>
            obtain ⟨seen, rfl⟩ := visible
            rw [List.drop_left] at found
            have same : first ++ '\n' :: fields.text ++ seen
                = first ++ '\n' :: (fields.text ++ seen) := by simp
            obtain ⟨other, marks, equal⟩ := Option.map_eq_some_iff.mp found
            obtain rfl : other = mark := (WmoHeaderRef.mk.inj equal).2.2.2
            exact ⟨seen, same, (bulletinMark_shown_iff tailPlain read (split same)).mp marks⟩
        · cases found
      · rintro ⟨seen, same, shows⟩
        have marks := (bulletinMark_shown_iff tailPlain read (split same)).mpr shows
        have regrouped : shown = first ++ '\n' :: fields.text ++ seen := by
          rw [same]
          simp
        rw [regrouped, if_pos (List.prefix_append _ _), List.drop_left, marks]
        rfl

/-- A heading with a mark, behind a sequence line. -/
def markedHeading : Text := "000 \nFXUS63 KDMX 011200 COR\nAFDDMX\n".toList

theorem markedHeading_secondLine
    : conditionText ⟨Char.isDigit, fun _ _ => rfl⟩ markedHeading = .ok markedHeading
      ∧ ∃ first fields tail rest,
          HeadingSecond markedHeading first fields tail rest
          ∧ ((∃ header,
                (nthLine markedHeading 1).bind lineHeading = some header
                ∧ parseWmo markedHeading = .ok header)
            ↔ headingAt (searchWindow markedHeading) = headingAt (fields.text ++ tail)
              ∨ headingAt (searchWindow markedHeading) = none
                ∧ SecondLineShown markedHeading first fields tail) :=
  have conditioned
      : conditionText ⟨Char.isDigit, fun _ _ => rfl⟩ markedHeading = .ok markedHeading := by
    decide +kernel
  ⟨conditioned, parseWmo_secondLine_iff conditioned⟩

/-- A third line that is read as a mark of the second. -/
theorem thirdLine_read
    : conditionText ⟨Char.isDigit, fun _ _ => rfl⟩ "000 \nFXUS63 KDMX 011200\nCOR\n".toList
        = .ok "000 \nFXUS63 KDMX 011200\nCOR\n".toList
      ∧ lineHeading "FXUS63 KDMX 011200".toList
        = some ⟨"FXUS63".toList, "KDMX".toList, "011200".toList, none⟩
      ∧ parseWmo "000 \nFXUS63 KDMX 011200\nCOR\n".toList
        = .ok ⟨"FXUS63".toList, "KDMX".toList, "011200".toList, some "COR".toList⟩ := by
  decide +kernel

end Emwin.Parser
