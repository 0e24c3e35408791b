import Mathlib.Data.List.TakeWhile
import Emwin.Parser.Headings

/-! The framing of a Weather Wire text, and what the header parser reads of it. -/

namespace Emwin.WxWire
open Library Emwin.Parser

/-- `text.replace("\n\n", "\r\r\n")`. -/
def replaceDoubled : Text → Text
  | '\n' :: '\n' :: rest => '\r' :: '\r' :: '\n' :: replaceDoubled rest
  | c :: rest => c :: replaceDoubled rest
  | [] => []

def convertToNoaaport (text : Text) : Text :=
  let noaaport := '\x01' :: replaceDoubled text
  let ended :=
    if noaaport.getLast? = some '\n' then noaaport else noaaport ++ ['\r', '\r', '\n']
  ended ++ ['\x03']

-----------------------------------------------------------------------------------------
-- Product texts
-----------------------------------------------------------------------------------------

/-- `char::is_control`. -/
def isControl (c : Char) : Bool := c.toNat < 0x20 || (0x7F ≤ c.toNat && c.toNat ≤ 0x9F)

/-- A line that `str::trim` leaves something of. -/
def Visible (line : Text) : Prop := ∃ c ∈ line, isWhitespace c = false

/-- Three or more lines without control characters, the first and the last not blank. -/
structure ProductText where
  first : Text
  second : Text
  third : Text
  later : List Text
  noControls : ∀ line ∈ first :: second :: third :: later, ∀ c ∈ line, isControl c = false
  firstVisible : Visible first
  lastVisible : Visible ((third :: later).getLast (List.cons_ne_nil _ _))

namespace ProductText

def lines (product : ProductText) : List Text :=
  product.first :: product.second :: product.third :: product.later

/-- Each line with a line feed behind it. -/
def plain (product : ProductText) : Text := unlines product.lines

/-- The form that NWWS-OI delivers. -/
def delivered (product : ProductText) : Text := ['\n', '\n'].intercalate product.lines

end ProductText

-----------------------------------------------------------------------------------------
-- Conditioned lines
-----------------------------------------------------------------------------------------

theorem ldmSequence_iff {digits : DecimalDigits} {text : Text}
    : ldmSequence digits text = true
      ↔ ∃ front rest,
          Fits [digits.accepts, digits.accepts, digits.accepts] front ∧ text = front ++ rest := by
  rw [ldmSequence, Bool.not_eq_true', ← Bool.not_eq_true, List.isEmpty_iff,
    List.eq_nil_iff_forall_not_mem]
  push Not
  constructor
  · rintro ⟨found, member⟩
    obtain ⟨left, inside, _⟩ := Regex.mem_run_seq.mp member
    obtain ⟨split, -, fits⟩ := Regex.mem_run_sequence.mp inside
    exact ⟨left.taken, left.rest, fits, split⟩
  · rintro ⟨front, rest, fits, rfl⟩
    have inside : ⟨front, rest, []⟩
        ∈ (Regex.sequence [digits.accepts, digits.accepts, digits.accepts]).run (front ++ rest) :=
      Regex.mem_run_sequence.mpr ⟨rfl, rfl, fits⟩
    have blank : ⟨[], rest, []⟩ ∈ (Regex.opt (.cls isWhitespace)).run rest := by simp [Regex.run]
    exact ⟨_, Regex.mem_run_seq.mpr ⟨_, inside, _, blank, rfl⟩⟩

/-- The first line decides whether there is a sequence number. -/
theorem ldmSequence_line (digits : DecimalDigits) (line rest : Text)
    : ldmSequence digits (line ++ '\n' :: rest) = ldmSequence digits line := by
  have newline : digits.accepts '\n' = false := digits.ascii '\n' (by decide)
  rw [Bool.eq_iff_iff, ldmSequence_iff, ldmSequence_iff]
  constructor
  · rintro ⟨front, left, fits, same⟩
    have plain : '\n' ∉ front := fits.not_mem (by simp [newline])
    rcases List.append_eq_append_iff.mp same.symm with ⟨more, rfl, -⟩ | ⟨more, rfl, behind⟩
    · exact ⟨front, more, fits, rfl⟩
    · cases more with
      | nil => exact ⟨line, [], by simpa using fits, by simp⟩
      | cons c more =>
          obtain ⟨rfl, -⟩ := List.cons.inj behind
          exact absurd (by simp) plain
  · rintro ⟨front, left, fits, rfl⟩
    exact ⟨front, left ++ '\n' :: rest, fits, by simp⟩

/-- The lines with a sequence line in front. -/
def conditionLines (digits : DecimalDigits) : List Text → List Text
  | [] => [addedLine]
  | first :: others =>
      if ldmSequence digits first then first :: others else addedLine :: first :: others

/-- What conditioning does behind the removal of transport artifacts. -/
def finishText (digits : DecimalDigits) (text : Text) : Except ParserError Text :=
  let conditioned := if ldmSequence digits text then text else "000 \n".toList ++ text
  match nthLine conditioned 1 with
  | none => .error .missingWmoLine
  | some line2 =>
      if (searchLines? wmoRe line2).isSome then
        .ok (if conditioned.getLast? = some '\n' then conditioned else conditioned ++ ['\n'])
      else .error (.invalidWmoHeader line2)

/-- A text with a line feed at its end. -/
def endLine (text : Text) : Text := if text.getLast? = some '\n' then text else text ++ ['\n']

theorem finishText_lines {digits : DecimalDigits} {first text : Text} {others : List Text}
    (shape : text = first ∨ ∃ rest, text = first ++ '\n' :: rest) (nonempty : text ≠ [])
    (read : Library.lines text = first :: others)
    (ended : endLine text = unlines (first :: others))
    : finishText digits text
      = match (conditionLines digits (first :: others))[1]? with
        | none => .error .missingWmoLine
        | some line2 =>
            if (searchLines? wmoRe line2).isSome then
              .ok (unlines (conditionLines digits (first :: others)))
            else .error (.invalidWmoHeader line2) := by
  have same : ldmSequence digits text = ldmSequence digits first := by
    rcases shape with rfl | ⟨rest, rfl⟩
    · rfl
    · exact ldmSequence_line digits first rest
  have added : "000 \n".toList ++ text = addedLine ++ '\n' :: text := rfl
  have addedEnd : endLine (addedLine ++ '\n' :: text) = addedLine ++ '\n' :: endLine text := by
    have last : (addedLine ++ '\n' :: text).getLast? = text.getLast? := by
      rw [List.append_cons, List.getLast?_append_of_ne_nil _ nonempty]
    rw [endLine, endLine, last]
    split
    · rfl
    · simp
  unfold finishText
  dsimp only
  rw [conditionLines, same]
  by_cases numbered : ldmSequence digits first = true
  · rw [if_pos numbered, if_pos numbered, nthLine, read]
    change _ = _
    rw [← ended]
    rfl
  · rw [if_neg numbered, if_neg numbered, nthLine, added, lines_cons ⟨by decide, by decide⟩, read]
    rw [unlines_cons, ← ended, ← addedEnd]
    rfl

-----------------------------------------------------------------------------------------
-- The header of conditioned lines
-----------------------------------------------------------------------------------------

def productHeader (wmo : WmoHeaderRef) (afos : Text) : TextProductHeader :=
  ⟨normalizeTtaaii wmo.ttaaii, wmo.cccc, wmo.ddhhmm, wmo.bbb, trim afos⟩

/-- Conditioned lines whose second line is a heading, with the header that the window and the
third line give.
-/
def Reads (list : List Text) (header : TextProductHeader) : Prop :=
  ∃ first fields tail third rest wmo afos,
    list = first :: (Fields.text fields ++ tail) :: third :: rest
    ∧ fields.Valid
    ∧ (bulletinMark tail).isSome = true
    ∧ (headingAt (searchWindow (unlines list))).or
        ((markInView (unlines list) first fields).map fields.header)
      = some wmo
    ∧ afosOf third = some afos
    ∧ header = productHeader wmo afos

theorem parseAfos_eq_ok_iff {text id : Text}
    : parseAfos text = .ok id
      ↔ ∃ line afos, nthLine text 2 = some line ∧ afosOf line = some afos ∧ trim afos = id := by
  unfold parseAfos afosOf
  cases nthLine text 2 with
  | none => simp
  | some line =>
      dsimp only
      cases found : (afosRe.captures? line).bind (captureNamed "1") <;> simp [found]

theorem parseTextProductConditioned_eq_ok_iff {text : Text} {header : TextProductHeader}
    : parseTextProductConditioned text = .ok header
      ↔ ∃ wmo line afos,
          (searchLines? wmoRe (searchWindow text)).map wmoHeaderOf = some wmo
          ∧ nthLine text 2 = some line ∧ afosOf line = some afos
          ∧ header = productHeader wmo afos := by
  unfold parseTextProductConditioned
  constructor
  · intro parsed
    split at parsed
    · exact absurd parsed (by simp)
    · next wmo wmoParsed =>
        split at parsed
        · exact absurd parsed (by simp)
        · next id afosParsed =>
            obtain ⟨line, afos, third, named, rfl⟩ := parseAfos_eq_ok_iff.mp afosParsed
            obtain rfl := Except.ok.inj parsed
            exact ⟨wmo, line, afos, parseWmo_eq_ok_iff.mp wmoParsed, third, named, rfl⟩
  · rintro ⟨wmo, line, afos, found, third, named, rfl⟩
    rw [parseWmo_eq_ok_iff.mpr found, parseAfos_eq_ok_iff.mpr ⟨line, afos, third, named, rfl⟩]
    rfl

/-- What the header parser makes of lines that were not conditioned yet. -/
theorem finishText_parsed_iff {digits : DecimalDigits} {first text : Text} {others : List Text}
    (shape : text = first ∨ ∃ rest, text = first ++ '\n' :: rest) (nonempty : text ≠ [])
    (read : Library.lines text = first :: others)
    (ended : endLine text = unlines (first :: others))
    (plain : ∀ line ∈ first :: others, Plain line) {header : TextProductHeader}
    : (∃ conditioned,
        finishText digits text = .ok conditioned
        ∧ parseTextProductConditioned conditioned = .ok header)
      ↔ Reads (conditionLines digits (first :: others)) header := by
  rw [finishText_lines shape nonempty read ended]
  have allPlain : ∀ line ∈ conditionLines digits (first :: others), Plain line := by
    intro line member
    rw [conditionLines] at member
    split_ifs at member
    · exact plain line member
    · rcases List.mem_cons.mp member with rfl | listed
      · exact ⟨by decide, by decide⟩
      · exact plain line listed
  generalize conditionLines digits (first :: others) = list at allPlain ⊢
  have lineAt (index : Nat) : nthLine (unlines list) index = list[index]? := by
    rw [nthLine, lines_unlines allPlain]
  constructor
  · rintro ⟨conditioned, accepted, parsed⟩
    rcases list with _ | ⟨top, _ | ⟨second, rest⟩⟩
    · exact absurd accepted (by simp)
    · exact absurd accepted (by simp)
    have secondPlain : Plain second := allPlain second (by simp)
    change (if (searchLines? wmoRe second).isSome then _ else _) = _ at accepted
    split_ifs at accepted with heading
    obtain rfl := Except.ok.inj accepted
    obtain ⟨fields, tail, valid, rfl, marked⟩ := (searchLines?_isSome_iff secondPlain.1).mp heading
    obtain ⟨wmo, third, afos, found, line, named, rfl⟩ :=
      parseTextProductConditioned_eq_ok_iff.mp parsed
    rw [lineAt] at line
    rcases rest with _ | ⟨next, rest⟩
    · exact absurd line (by simp)
    obtain rfl : next = third := by simpa using line
    have written : unlines (top :: (fields.text ++ tail) :: next :: rest)
        = top ++ '\n' :: (fields.text ++ (tail ++ '\n' :: unlines (next :: rest))) := by simp
    rw [searchLines?_window (allPlain top (by simp)).1
      (fun member => secondPlain.1 (by simp [member])) valid marked written] at found
    exact ⟨top, fields, tail, next, rest, wmo, afos, rfl, valid, marked, found, named, rfl⟩
  · rintro ⟨top, fields, tail, third, rest, wmo, afos, rfl, valid, marked, found, named, rfl⟩
    have secondPlain : Plain (fields.text ++ tail) := allPlain _ (by simp)
    refine ⟨unlines (top :: (fields.text ++ tail) :: third :: rest), ?_, ?_⟩
    · change (if (searchLines? wmoRe (fields.text ++ tail)).isSome then _ else _) = _
      rw [if_pos ((searchLines?_isSome_iff secondPlain.1).mpr ⟨fields, tail, valid, rfl, marked⟩)]
    · refine parseTextProductConditioned_eq_ok_iff.mpr ⟨wmo, third, afos, ?_, ?_, named, rfl⟩
      · have written : unlines (top :: (fields.text ++ tail) :: third :: rest)
            = top ++ '\n' :: (fields.text ++ (tail ++ '\n' :: unlines (third :: rest))) := by simp
        rw [searchLines?_window (allPlain top (by simp)).1
          (fun member => secondPlain.1 (by simp [member])) valid marked written]
        exact found
      · rw [lineAt]
        rfl

-----------------------------------------------------------------------------------------
-- Both forms of a product
-----------------------------------------------------------------------------------------

theorem parseTextProduct_toUtf8 {digits : DecimalDigits} {text stripped : Text}
    {header : TextProductHeader}
    (conditioned : conditionText digits text = finishText digits stripped)
    : parseTextProduct digits (toUtf8 text) = .ok header
      ↔ ∃ conditioned,
          finishText digits stripped = .ok conditioned
          ∧ parseTextProductConditioned conditioned = .ok header := by
  rw [parseTextProduct, fromUtf8Lossy_toUtf8, conditioned]
  cases finishText digits stripped <;> simp

theorem trimEndWhile_of_visible {line : Text} (visible : Visible line) (front : Text)
    : trimEndWhile isWhitespace (front ++ line) = front ++ trimEndWhile isWhitespace line := by
  obtain ⟨c, member, shown⟩ := visible
  rw [trimEndWhile, List.reverse_append, List.dropWhile_append, if_neg]
  · simp [trimEndWhile]
  · intro empty
    have gone := List.dropWhile_eq_nil_iff.mp (List.isEmpty_iff.mp empty) c (by simpa using member)
    rw [shown] at gone
    exact absurd gone (by simp)

theorem trimEndWhile_ne_nil {line : Text} (visible : Visible line)
    : trimEndWhile isWhitespace line ≠ [] := by
  obtain ⟨c, member, shown⟩ := visible
  intro empty
  rw [trimEndWhile, List.reverse_eq_nil_iff, List.dropWhile_eq_nil_iff] at empty
  have gone := empty c (by simpa using member)
  rw [shown] at gone
  exact absurd gone (by simp)

theorem dropWhile_of_visible {line : Text} (visible : Visible line) (rest : Text)
    : (line ++ rest).dropWhile isWhitespace = line.dropWhile isWhitespace ++ rest := by
  obtain ⟨c, member, shown⟩ := visible
  rw [List.dropWhile_append, if_neg]
  intro empty
  have gone := List.dropWhile_eq_nil_iff.mp (List.isEmpty_iff.mp empty) c member
  rw [shown] at gone
  exact absurd gone (by simp)

theorem exists_blank_trimEnd (line : Text)
    : ∃ blank, Blank blank ∧ line = trimEndWhile isWhitespace line ++ blank := by
  refine ⟨(line.reverse.takeWhile isWhitespace).reverse, ?_, ?_⟩
  · intro c member
    exact List.mem_takeWhile_imp (List.mem_reverse.mp member)
  · rw [trimEndWhile, ← List.reverse_append, List.takeWhile_append_dropWhile, List.reverse_reverse]

theorem shown_of_designator {text : Text} (designator : Designator text)
    : ∀ c ∈ text, isWhitespace c = false :=
  fun c member => isWhitespace_of_upperOrDigit (designator.chars c member)

/-- Blanks behind an AFOS line do not matter. -/
theorem afosOf_trimEnd (line : Text) : afosOf (trimEndWhile isWhitespace line) = afosOf line := by
  obtain ⟨spaces, isBlank, split⟩ := exists_blank_trimEnd line
  refine Option.ext fun afos => ?_
  rw [afosOf_eq_some_iff, afosOf_eq_some_iff]
  constructor
  · rintro ⟨designator, blank, blanks, same⟩
    refine ⟨designator, blank ++ spaces, ?_, ?_⟩
    · intro c member
      rcases List.mem_append.mp member with first | second
      · exact blanks c first
      · exact isBlank c second
    · rw [← List.append_assoc, ← same]
      exact split
  · rintro ⟨designator, blank, blanks, rfl⟩
    refine ⟨designator, [], by simp [Blank], ?_⟩
    rw [trimEndWhile_append (shown_of_designator designator) blanks, List.append_nil]

namespace ProductText

variable (product : ProductText)

/-- The first line without the blanks before it. -/
def start : Text := product.first.dropWhile isWhitespace

/-- The lines between the first and the last. -/
def inner : List Text := product.second :: (product.third :: product.later).dropLast

/-- The last line without the blanks behind it. -/
def stop : Text :=
  trimEndWhile isWhitespace ((product.third :: product.later).getLast (List.cons_ne_nil _ _))

variable {product}

theorem isControl_of_mem {line : Text} (member : line ∈ product.lines) {c : Char}
    (control : isControl c = true)
    : c ∉ line := by
  intro inside
  rw [product.noControls line member c inside] at control
  exact absurd control (by simp)

theorem plain_of_mem {line : Text} (member : line ∈ product.lines) : Plain line :=
  ⟨isControl_of_mem member (by decide), isControl_of_mem member (by decide)⟩

/-- Lines without control characters keep all their characters. -/
theorem filter_unlines {list : List Text} (listed : ∀ line ∈ list, line ∈ product.lines)
    : (unlines list).filter (fun c => c ≠ '\r' && c ≠ '\x00') = unlines list := by
  refine List.filter_eq_self.mpr fun c member => ?_
  obtain ⟨line, inside, here⟩ := List.mem_flatMap.mp member
  rcases List.mem_append.mp here with inLine | newline
  · have noReturn : c ≠ '\r' := by
      rintro rfl
      exact isControl_of_mem (listed line inside) (by decide) inLine
    have noNull : c ≠ '\x00' := by
      rintro rfl
      exact isControl_of_mem (listed line inside) (by decide) inLine
    simp [noReturn, noNull]
  · obtain rfl := List.mem_singleton.mp newline
    rfl

theorem lines_split
    : product.lines
      = (product.first :: product.inner)
        ++ [(product.third :: product.later).getLast (List.cons_ne_nil _ _)] := by
  rw [inner, List.cons_append, List.cons_append, List.dropLast_append_getLast]
  rfl

theorem trim_plain
    : trim product.plain = unlines (product.start :: product.inner) ++ product.stop := by
  have written : product.plain
      = product.first
        ++ ('\n' :: unlines product.inner
              ++ ((product.third :: product.later).getLast (List.cons_ne_nil _ _) ++ ['\n'])) := by
    rw [plain, lines_split, unlines_append, unlines_cons]
    simp
  have visible
      : Visible ((product.third :: product.later).getLast (List.cons_ne_nil _ _) ++ ['\n']) := by
    obtain ⟨c, member, shown⟩ := product.lastVisible
    exact ⟨c, List.mem_append_left _ member, shown⟩
  have newline (line : Text)
      : trimEndWhile isWhitespace (line ++ ['\n']) = trimEndWhile isWhitespace line := by
    simp [trimEndWhile, show isWhitespace '\n' = true from rfl]
  rw [trim, written, dropWhile_of_visible product.firstVisible, ← List.append_assoc,
    trimEndWhile_of_visible visible, newline, unlines_cons]
  rfl

/-- A control character is neither in the lines nor a line feed. -/
theorem not_mem_trimmed {c : Char} (control : isControl c = true) (other : c ≠ '\n')
    : c ∉ unlines (product.start :: product.inner) ++ product.stop := by
  rw [← trim_plain]
  intro member
  obtain ⟨line, listed, inside⟩ := List.mem_flatMap.mp (mem_of_mem_trim member)
  rcases List.mem_append.mp inside with inLine | newline
  · exact isControl_of_mem listed control inLine
  · exact other (List.mem_singleton.mp newline)

/-- What conditioning leaves of the plain form. -/
theorem conditionText_plain (digits : DecimalDigits)
    : conditionText digits product.plain
      = finishText digits (unlines (product.start :: product.inner) ++ product.stop) := by
  have sanitized
      : product.plain.filter (fun c => c ≠ '\r' && c ≠ '\x00') = product.plain :=
    filter_unlines fun _ member => member
  have nonempty : unlines (product.start :: product.inner) ++ product.stop ≠ [] := by simp
  have noStart
      : (unlines (product.start :: product.inner) ++ product.stop).head? ≠ some '\x01' := by
    intro first
    exact not_mem_trimmed (by decide) (by decide) (List.mem_of_head? first)
  have noEnd
      : (unlines (product.start :: product.inner) ++ product.stop).getLast? ≠ some '\x03' := by
    intro last
    exact not_mem_trimmed (by decide) (by decide) (List.mem_of_getLast? last)
  unfold conditionText
  dsimp only
  rw [sanitized, trim_plain, if_neg nonempty, if_neg noStart, if_neg noEnd]
  rfl

theorem replaceDoubled_line {line : Text} (plain : '\n' ∉ line) (rest : Text)
    : replaceDoubled (line ++ rest) = line ++ replaceDoubled rest := by
  induction line with
  | nil => rfl
  | cons c line ih =>
      have other : c ≠ '\n' := fun same => plain (by simp [same])
      rw [List.cons_append, replaceDoubled, ih fun member => plain (by simp [member])]
      · rfl
      · rintro rest rfl
        exact absurd rfl other

/-- The line ends become those of NOAAPort. By induction on the lines. -/
theorem replaceDoubled_intercalate {list : List Text} (plain : ∀ line ∈ list, '\n' ∉ line)
    : replaceDoubled (['\n', '\n'].intercalate list) = ['\r', '\r', '\n'].intercalate list := by
  induction list with
  | nil => rfl
  | cons line list ih =>
      have here := plain line (by simp)
      have later := ih fun other member => plain other (by simp [member])
      cases list with
      | nil => simpa [replaceDoubled] using replaceDoubled_line here []
      | cons next list =>
          rw [List.intercalate_cons_cons, List.intercalate_cons_cons, ← later, List.append_assoc,
            replaceDoubled_line here, List.append_assoc]
          rfl

theorem filter_framed {list : List Text} (nonempty : list ≠ [])
    (clean : ∀ line ∈ list, line.filter (fun c => c ≠ '\r' && c ≠ '\x00') = line)
    : (['\r', '\r', '\n'].intercalate list ++ ['\r', '\r', '\n']).filter
          (fun c => c ≠ '\r' && c ≠ '\x00')
      = unlines list := by
  have ending : ['\r', '\r', '\n'].filter (fun c => c ≠ '\r' && c ≠ '\x00') = ['\n'] := rfl
  induction list with
  | nil => exact absurd rfl nonempty
  | cons line list ih =>
      have here := clean line (by simp)
      cases list with
      | nil =>
          rw [List.intercalate_singleton, List.filter_append, here, ending, unlines_cons]
          rfl
      | cons next list =>
          have later := ih (by simp) fun other member => clean other (by simp [member])
          rw [List.intercalate_cons_cons, List.append_assoc, List.filter_append,
            List.filter_append, here, ending, later, List.append_assoc, unlines_cons line]
          rfl

theorem intercalate_concat (separator : Text) (list : List Text) (last : Text)
    : ∃ front, separator.intercalate (list ++ [last]) = front ++ last := by
  induction list with
  | nil => exact ⟨[], by simp⟩
  | cons line list ih =>
      obtain ⟨front, same⟩ := ih
      cases list with
      | nil => exact ⟨line ++ separator, by simp [List.intercalate_cons_cons]⟩
      | cons next list =>
          refine ⟨line ++ separator ++ front, ?_⟩
          rw [List.append_assoc _ front, ← same]
          exact List.intercalate_cons_cons

/-- The framed form of a product. -/
theorem convertToNoaaport_delivered
    : convertToNoaaport product.delivered
      = '\x01'
        :: (['\r', '\r', '\n'].intercalate product.lines ++ ['\r', '\r', '\n'])
        ++ ['\x03'] := by
  have replaced : replaceDoubled product.delivered = ['\r', '\r', '\n'].intercalate product.lines :=
    replaceDoubled_intercalate fun line member => (plain_of_mem member).1
  have unfinished
      : ('\x01' :: ['\r', '\r', '\n'].intercalate product.lines).getLast? ≠ some '\n' := by
    have listed : (product.third :: product.later).getLast (List.cons_ne_nil _ _)
        ∈ product.lines := by
      rw [lines_split]
      simp
    have nonempty : (product.third :: product.later).getLast (List.cons_ne_nil _ _) ≠ [] := by
      obtain ⟨c, member, -⟩ := product.lastVisible
      exact List.ne_nil_of_mem member
    obtain ⟨front, same⟩ := intercalate_concat ['\r', '\r', '\n'] (product.first :: product.inner)
      ((product.third :: product.later).getLast (List.cons_ne_nil _ _))
    rw [lines_split, same, ← List.cons_append, List.getLast?_append_of_ne_nil _ nonempty]
    intro last
    exact (plain_of_mem listed).1 (List.mem_of_getLast? last)
  unfold convertToNoaaport
  dsimp only
  rw [replaced, if_neg unfinished]
  rfl

/-- What conditioning leaves of the framed form: the first line is gone. -/
theorem conditionText_framed (digits : DecimalDigits)
    : conditionText digits (convertToNoaaport product.delivered)
      = finishText digits (unlines (product.second :: product.third :: product.later)) := by
  have sanitized
      : (convertToNoaaport product.delivered).filter (fun c => c ≠ '\r' && c ≠ '\x00')
        = '\x01' :: unlines product.lines ++ ['\x03'] := by
    rw [convertToNoaaport_delivered, List.filter_append, List.filter_cons_of_pos (by decide),
      filter_framed (by simp [lines])]
    · rfl
    · intro line member
      have clean := @filter_unlines product [line] (by simpa using member)
      rw [unlines_cons, unlines_nil, List.filter_append] at clean
      exact List.append_cancel_right clean
  have trimmed : trim ('\x01' :: unlines product.lines ++ ['\x03'])
      = '\x01' :: unlines product.lines ++ ['\x03'] := by
    rw [trim_concat (by decide), List.dropWhile_cons_of_neg (by decide)]
  have headless
      : ((splitOnce '\n' ('\x01' :: unlines product.lines ++ ['\x03'])).map Prod.snd).getD []
        = unlines (product.second :: product.third :: product.later) ++ ['\x03'] := by
    have plain : ∀ c ∈ '\x01' :: product.first, decide (c ≠ '\n') = true := by
      intro c member
      rcases List.mem_cons.mp member with rfl | inside
      · decide
      · have other : c ≠ '\n' := by
          rintro rfl
          exact (plain_of_mem (by simp [lines] : product.first ∈ product.lines)).1 inside
        simp [other]
    have split : '\x01' :: unlines product.lines ++ ['\x03']
        = ('\x01' :: product.first)
          ++ '\n' :: (unlines (product.second :: product.third :: product.later) ++ ['\x03']) := by
      simp [lines]
    rw [split, splitOnce, List.dropWhile_append_of_pos plain, List.dropWhile_cons_of_neg (by simp)]
    rfl
  have nonempty : '\x01' :: unlines product.lines ++ ['\x03'] ≠ [] := by simp
  have started : ('\x01' :: unlines product.lines ++ ['\x03']).head? = some '\x01' := rfl
  have closed
      : (unlines (product.second :: product.third :: product.later) ++ ['\x03']).getLast?
        = some '\x03' :=
    List.getLast?_concat
  unfold conditionText
  dsimp only
  rw [sanitized, trimmed, if_neg nonempty, if_pos started, headless, if_pos closed,
    List.dropLast_concat]
  rfl

variable (product)

/-- The lines that the header of the plain form is read from. -/
def plainLines (digits : DecimalDigits) : List Text :=
  conditionLines digits (product.start :: product.inner ++ [product.stop])

/-- The lines that the header of the framed form is read from. -/
def framedLines (digits : DecimalDigits) : List Text :=
  conditionLines digits (product.second :: product.third :: product.later)

variable {product}

theorem plain_of_mem_trimmed {line : Text}
    (member : line ∈ product.start :: product.inner ++ [product.stop])
    : Plain line := by
  have part {whole : Text} (listed : whole ∈ product.lines) (inside : ∀ c ∈ line, c ∈ whole)
      : Plain line :=
    ⟨fun newline => (plain_of_mem listed).1 (inside _ newline),
      fun back => (plain_of_mem listed).2 (inside _ back)⟩
  have firstListed : product.first ∈ product.lines := by simp [lines]
  have lastListed
      : (product.third :: product.later).getLast (List.cons_ne_nil _ _) ∈ product.lines := by
    simp [lines_split]
  rcases List.mem_append.mp member with front | last
  · rcases List.mem_cons.mp front with rfl | within
    · exact part firstListed fun c inside => (List.dropWhile_sublist _).subset inside
    · refine @part line ?_ fun c inside => inside
      rw [lines_split]
      exact List.mem_append_left _ (List.mem_cons_of_mem _ within)
  · obtain rfl := List.mem_singleton.mp last
    refine part lastListed fun c inside => ?_
    rw [stop, trimEndWhile, List.mem_reverse] at inside
    exact List.mem_reverse.mp ((List.dropWhile_sublist _).subset inside)

theorem parseTextProduct_plain {digits : DecimalDigits} {header : TextProductHeader}
    : parseTextProduct digits (toUtf8 product.plain) = .ok header
      ↔ Reads (product.plainLines digits) header := by
  have stopPlain : Plain product.stop := @plain_of_mem_trimmed product _ (by simp)
  have nonempty : product.stop ≠ [] := trimEndWhile_ne_nil product.lastVisible
  rw [parseTextProduct_toUtf8 (conditionText_plain digits)]
  refine finishText_parsed_iff ?_ (by simp) ?_ ?_ fun line member => plain_of_mem_trimmed member
  · exact .inr ⟨unlines product.inner ++ product.stop, by simp⟩
  · refine lines_unlines_append (fun line member => ?_) stopPlain.1 nonempty
    exact plain_of_mem_trimmed (List.mem_append_left _ member)
  · have unfinished
        : (unlines (product.start :: product.inner) ++ product.stop).getLast? ≠ some '\n' := by
      rw [List.getLast?_append_of_ne_nil _ nonempty]
      intro last
      exact stopPlain.1 (List.mem_of_getLast? last)
    change _ = unlines ((product.start :: product.inner) ++ [product.stop])
    rw [endLine, if_neg unfinished, unlines_append, unlines_cons product.stop, unlines_nil,
      List.append_assoc]

theorem parseTextProduct_framed {digits : DecimalDigits} {header : TextProductHeader}
    : parseTextProduct digits (toUtf8 (convertToNoaaport product.delivered)) = .ok header
      ↔ Reads (product.framedLines digits) header := by
  have allPlain : ∀ line ∈ product.second :: product.third :: product.later, Plain line :=
    fun line member => plain_of_mem (List.mem_cons_of_mem _ member)
  rw [parseTextProduct_toUtf8 (conditionText_framed digits)]
  refine finishText_parsed_iff ?_ (by simp) (lines_unlines allPlain) ?_ allPlain
  · exact .inr ⟨unlines (product.third :: product.later), by simp⟩
  · have ended : (unlines (product.second :: product.third :: product.later)).getLast?
        = some '\n' := by
      have split := List.dropLast_append_getLast (List.cons_ne_nil product.third product.later)
      rw [unlines_cons, ← split, unlines_append, unlines_cons, unlines_nil, List.append_cons,
        ← List.append_assoc, ← List.append_assoc]
      exact List.getLast?_concat
    rw [endLine, if_pos ended]

-----------------------------------------------------------------------------------------
-- When both forms give the same header
-----------------------------------------------------------------------------------------

theorem ldmSequence_take (digits : DecimalDigits) (text : Text)
    : ldmSequence digits (text.take 3) = ldmSequence digits text := by
  rw [Bool.eq_iff_iff, ldmSequence_iff, ldmSequence_iff]
  constructor
  · rintro ⟨front, rest, fits, same⟩
    refine ⟨front, rest ++ text.drop 3, fits, ?_⟩
    rw [← List.append_assoc, ← same, List.take_append_drop]
  · rintro ⟨front, rest, fits, rfl⟩
    have three : front.length = 3 := fits.length_eq.symm
    exact ⟨front, [], fits, by rw [List.take_left' three, List.append_nil]⟩

/-- The designator of a heading has the sequence number of its line. -/
theorem ldmSequence_fields (digits : DecimalDigits) {fields : Fields} (valid : fields.Valid)
    (rest : Text)
    : ldmSequence digits (fields.text ++ rest)
      = ldmSequence digits (normalizeTtaaii fields.ttaaii) := by
  have long := valid.ttaaii.atLeast
  have short : (fields.text ++ rest).take 3 = fields.ttaaii.take 3 := by
    rw [Fields.text, List.append_assoc, List.take_append_of_le_length (by omega)]
  have normalized : (normalizeTtaaii fields.ttaaii).take 3 = fields.ttaaii.take 3 := by
    unfold normalizeTtaaii
    split
    · rw [List.take_append_of_le_length (by omega)]
    · rfl
  rw [← ldmSequence_take, short, ← normalized, ldmSequence_take]

theorem trim_designator {text : Text} (designator : Designator text) : trim text = text := by
  have shown := shown_of_designator designator
  have kept : text.dropWhile isWhitespace = text := by
    cases text with
    | nil => rfl
    | cons c text => exact List.dropWhile_cons_of_neg (by simp [shown c (by simp)])
  have whole := trimEndWhile_append shown (fun c member => absurd member List.not_mem_nil)
  rw [List.append_nil] at whole
  rw [trim, kept, whole]

/-- A product with an LDM sequence line: the first 100 bytes show the same mark behind the
heading in the second line, with the sequence line in front of it and with the added one, and
the sequence line is no heading itself.
-/
def NumberedFits (digits : DecimalDigits) (product : ProductText) : Prop :=
  ldmSequence digits product.second = false
  ∧ headingAt (searchWindow (unlines (product.plainLines digits))) = none
  ∧ ∀ fields tail,
      Fields.Valid fields → product.second = fields.text ++ tail →
      markInView (unlines (product.plainLines digits)) product.start fields
      = markInView (unlines (product.framedLines digits)) addedLine fields

/-- A product that starts with the heading: its AFOS line passes for a sequence line, and the
heading and the AFOS line stand once more behind it.
-/
def RepeatedHeading (digits : DecimalDigits) (product : ProductText) : Prop :=
  ldmSequence digits product.second = true
  ∧ ∃ fields tail others rest fourth more,
      Fields.Valid fields ∧ product.start = fields.text ++ tail
      ∧ Fields.Valid others ∧ product.third = others.text ++ rest
      ∧ (bulletinMark rest).isSome = true
      ∧ product.later = fourth :: more ∧ afosOf fourth = afosOf product.second
      ∧ normalizeTtaaii others.ttaaii = normalizeTtaaii fields.ttaaii
      ∧ others.cccc = fields.cccc ∧ others.ddhhmm = fields.ddhhmm
      ∧ markInView (unlines (product.framedLines digits)) product.second others
        = markInView (unlines (product.plainLines digits)) addedLine fields

/-- The third line of the trimmed product is the third line but for blanks. -/
theorem exists_third
    : ∃ third rest,
        product.start :: product.inner ++ [product.stop]
          = product.start :: product.second :: third :: rest
        ∧ afosOf third = afosOf product.third := by
  obtain ⟨first, second, third, later, noControls, firstVisible, lastVisible⟩ := product
  cases later with
  | nil => exact ⟨trimEndWhile isWhitespace third, [], rfl, afosOf_trimEnd _⟩
  | cons fourth more => exact ⟨third, _, rfl, rfl⟩

theorem plainLines_numbered {digits : DecimalDigits}
    (numbered : ldmSequence digits product.start = true)
    : product.plainLines digits = product.start :: product.inner ++ [product.stop] := by
  rw [plainLines, List.cons_append, conditionLines, if_pos numbered]

theorem plainLines_added {digits : DecimalDigits}
    (numbered : ldmSequence digits product.start = false)
    : product.plainLines digits
      = addedLine :: product.start :: (product.inner ++ [product.stop]) := by
  rw [plainLines, List.cons_append, conditionLines, if_neg (by simp [numbered])]

theorem framedLines_numbered {digits : DecimalDigits}
    (numbered : ldmSequence digits product.second = true)
    : product.framedLines digits = product.second :: product.third :: product.later := by
  rw [framedLines, conditionLines, if_pos numbered]

theorem framedLines_added {digits : DecimalDigits}
    (numbered : ldmSequence digits product.second = false)
    : product.framedLines digits
      = addedLine :: product.second :: product.third :: product.later := by
  rw [framedLines, conditionLines, if_neg (by simp [numbered])]

/-- A line that is read as an AFOS line is not read as a heading. -/
theorem afos_not_heading {line afos tail : Text} {fields : Fields} (plain : Plain line)
    (named : afosOf line = some afos) (valid : fields.Valid) (written : line = fields.text ++ tail)
    (marked : (bulletinMark tail).isSome = true)
    : False := by
  have heading := (searchLines?_isSome_iff plain.1).mpr ⟨fields, tail, valid, written, marked⟩
  rw [searchLines?_afos named plain.1] at heading
  exact absurd heading (by simp)

theorem headingAt_addedLines (list : List Text)
    : headingAt (searchWindow (unlines (addedLine :: list))) = none :=
  headingAt_added (unlines_cons addedLine list)

theorem plain_third : Plain product.third :=
  plain_of_mem (List.mem_cons_of_mem _ (List.mem_cons_of_mem _ List.mem_cons_self))

theorem plain_second : Plain product.second :=
  plain_of_mem (List.mem_cons_of_mem _ List.mem_cons_self)

/-- A heading in a numbered first line has another designator than one in an unnumbered line. -/
theorem designator_ne {digits : DecimalDigits} {first tail rest : Text} {wmo : WmoHeaderRef}
    {fields : Fields} (numbered : ldmSequence digits first = true)
    (found : headingAt (searchWindow (first ++ '\n' :: rest)) = some wmo) (valid : fields.Valid)
    (unnumbered : ldmSequence digits (fields.text ++ tail) = false)
    : normalizeTtaaii wmo.ttaaii ≠ normalizeTtaaii fields.ttaaii := by
  intro same
  obtain ⟨others, seen, otherValid, window, header⟩ := headingAt_eq_some found
  obtain ⟨mark, -, rfl⟩ := Option.map_eq_some_iff.mp header
  obtain ⟨hidden, whole⟩ := searchWindow_prefix (first ++ '\n' :: rest)
  rw [window, List.append_assoc] at whole
  rw [ldmSequence_fields digits valid, ← same] at unnumbered
  rw [← ldmSequence_line digits first rest, ← whole,
    ldmSequence_fields digits otherValid] at numbered
  exact absurd (numbered.symm.trans unnumbered) (by simp)

theorem framed_iff_numbered {digits : DecimalDigits} {header : TextProductHeader}
    (numbered : ldmSequence digits product.start = true)
    (accepted : Reads (product.plainLines digits) header)
    : Reads (product.framedLines digits) header ↔ NumberedFits digits product := by
  obtain ⟨third, others, listed, sameThird⟩ := @exists_third product
  have plainEq
      : product.plainLines digits = product.start :: product.second :: third :: others := by
    rw [plainLines_numbered numbered, listed]
  obtain ⟨first, fields, tail, line, rest, wmo, afos, split, valid, marked, found, named, rfl⟩ :=
    accepted
  obtain ⟨rfl, secondEq, rfl, rfl⟩ : product.start = first ∧ product.second = fields.text ++ tail
      ∧ third = line ∧ others = rest := by
    simpa [plainEq] using split
  rw [sameThird] at named
  constructor
  · rintro ⟨top, shown, after, next, more, framedWmo, id, framedSplit, framedValid, framedMarked,
      framedFound, framedNamed, same⟩
    have unnumbered : ldmSequence digits product.second = false := by
      by_contra other
      rw [framedLines_numbered (by simpa using other), List.cons.injEq, List.cons.injEq]
        at framedSplit
      exact afos_not_heading plain_third named framedValid framedSplit.2.1 framedMarked
    rw [framedLines_added unnumbered] at framedSplit framedFound
    obtain ⟨rfl, heading, rfl, rfl⟩ : addedLine = top ∧ product.second = shown.text ++ after
        ∧ product.third = next ∧ product.later = more := by
      simpa using framedSplit
    obtain ⟨rfl, rfl⟩ := Fields.unique valid framedValid (secondEq.symm.trans heading)
    rw [headingAt_addedLines, Option.none_or] at framedFound
    obtain ⟨framedMark, framedView, rfl⟩ := Option.map_eq_some_iff.mp framedFound
    have noHeading : headingAt (searchWindow (unlines (product.plainLines digits))) = none := by
      by_contra other
      obtain ⟨found', heading'⟩ := Option.ne_none_iff_exists'.mp other
      rw [heading', Option.some_or] at found
      obtain rfl := Option.some.inj found
      rw [plainEq, unlines_cons] at heading'
      refine designator_ne numbered heading' valid (secondEq ▸ unnumbered) ?_
      exact congrArg TextProductHeader.ttaaii same
    refine ⟨unnumbered, noHeading, fun others tail otherValid written => ?_⟩
    obtain ⟨rfl, -⟩ := Fields.unique valid otherValid (secondEq.symm.trans written)
    rw [noHeading, Option.none_or] at found
    obtain ⟨mark, view, rfl⟩ := Option.map_eq_some_iff.mp found
    have marks : mark = framedMark := congrArg TextProductHeader.bbb same
    rw [view, framedLines_added unnumbered, framedView, marks]
  · rintro ⟨unnumbered, noHeading, marks⟩
    refine ⟨addedLine, fields, tail, product.third, product.later, wmo, afos, ?_, valid, marked, ?_,
      named, rfl⟩
    · rw [framedLines_added unnumbered, secondEq]
    · rw [← marks fields tail valid secondEq, framedLines_added unnumbered, headingAt_addedLines]
      rw [noHeading] at found
      exact found

theorem framed_iff_repeated {digits : DecimalDigits} {header : TextProductHeader}
    (unnumbered : ldmSequence digits product.start = false)
    (accepted : Reads (product.plainLines digits) header)
    : Reads (product.framedLines digits) header ↔ RepeatedHeading digits product := by
  obtain ⟨first, fields, tail, line, rest, wmo, afos, split, valid, marked, found, named, rfl⟩ :=
    accepted
  rw [plainLines_added unnumbered] at split found
  obtain ⟨rfl, startEq, rfl, -⟩ : addedLine = first ∧ product.start = fields.text ++ tail
      ∧ product.second = line ∧ _ = rest := by
    simpa [inner] using split
  rw [headingAt_addedLines, Option.none_or, ← plainLines_added unnumbered] at found
  obtain ⟨mark, view, rfl⟩ := Option.map_eq_some_iff.mp found
  have numbered_of {header : TextProductHeader} (read : Reads (product.framedLines digits) header)
      : ldmSequence digits product.second = true := by
    obtain ⟨_, shown, after, _, _, _, _, framedSplit, framedValid, framedMarked, -⟩ := read
    by_contra other
    rw [framedLines_added (by simpa using other), List.cons.injEq, List.cons.injEq] at framedSplit
    exact afos_not_heading plain_second named framedValid framedSplit.2.1 framedMarked
  constructor
  · intro read
    have numbered := numbered_of read
    obtain ⟨top, shown, after, next, more, framedWmo, id, framedSplit, framedValid, framedMarked,
      framedFound, framedNamed, same⟩ := read
    rw [framedLines_numbered numbered] at framedSplit
    obtain ⟨rfl, heading, later⟩ : product.second = top ∧ product.third = shown.text ++ after
        ∧ product.later = next :: more := by
      simpa using framedSplit
    have noHeading : headingAt (searchWindow (unlines (product.framedLines digits))) = none := by
      rw [framedLines_numbered numbered]
      exact headingAt_afos named (unlines_cons _ _)
    rw [noHeading, Option.none_or] at framedFound
    obtain ⟨framedMark, framedView, rfl⟩ := Option.map_eq_some_iff.mp framedFound
    have afosEq : afosOf next = afosOf product.second := by
      have ids : trim afos = trim id := congrArg TextProductHeader.afos same
      rw [trim_designator (afosOf_eq_some_iff.mp named).1,
        trim_designator (afosOf_eq_some_iff.mp framedNamed).1] at ids
      rw [framedNamed, named, ids]
    have marks : mark = framedMark := congrArg TextProductHeader.bbb same
    refine ⟨numbered, fields, tail, shown, after, next, more, valid, startEq, framedValid, heading,
      framedMarked, later, afosEq, ?_, ?_, ?_, ?_⟩
    · exact (congrArg TextProductHeader.ttaaii same).symm
    · exact (congrArg TextProductHeader.cccc same).symm
    · exact (congrArg TextProductHeader.ddhhmm same).symm
    · rw [view, framedView, marks]
  · rintro ⟨numbered, others, behind, shown, after, fourth, more, otherValid, written, framedValid,
      thirdEq, framedMarked, later, afosEq, ids, offices, times, marks⟩
    obtain ⟨rfl, -⟩ := Fields.unique valid otherValid (startEq.symm.trans written)
    have noHeading : headingAt (searchWindow (unlines (product.framedLines digits))) = none := by
      rw [framedLines_numbered numbered]
      exact headingAt_afos named (unlines_cons _ _)
    refine ⟨product.second, shown, after, fourth, more, shown.header mark, afos, ?_, framedValid,
      framedMarked, ?_, ?_, ?_⟩
    · rw [framedLines_numbered numbered, thirdEq, later]
    · rw [noHeading, marks, view]
      rfl
    · rw [afosEq, named]
    · simp [productHeader, Fields.header, ids, offices, times]

/-- A product that is accepted in its plain form keeps its header in the framed form when its
first line is an LDM sequence line and the heading stands in view behind it; one that starts with
the heading loses it with the SOH line, unless it stands there twice.
-/
theorem framed_header_iff (digits : DecimalDigits) (product : ProductText)
    (header : TextProductHeader)
    (accepted : parseTextProduct digits (toUtf8 product.plain) = .ok header)
    : parseTextProduct digits (toUtf8 (convertToNoaaport product.delivered)) = .ok header
      ↔ (ldmSequence digits product.start = true ∧ NumberedFits digits product)
        ∨ (ldmSequence digits product.start = false ∧ RepeatedHeading digits product) := by
  rw [parseTextProduct_plain] at accepted
  rw [parseTextProduct_framed]
  cases numbered : ldmSequence digits product.start with
  | true => simpa using framed_iff_numbered numbered accepted
  | false => simpa using framed_iff_repeated numbered accepted

/-- The decimal digits of ASCII only. -/
def asciiDigits : DecimalDigits := .asciiOnly

/-- A product with an LDM sequence line. -/
def numberedProduct : ProductText where
  first := "000 ".toList
  second := "FXUS61 KBOX 022101".toList
  third := "AFDBOX".toList
  later := []
  noControls := by decide
  firstVisible := ⟨'0', by decide, by decide⟩
  lastVisible := ⟨'A', by decide, by decide⟩

/-- A product that starts with the heading. -/
def bareProduct : ProductText where
  first := "FXUS61 KBOX 022101".toList
  second := "AFDBOX".toList
  third := "body".toList
  later := []
  noControls := by decide
  firstVisible := ⟨'F', by decide, by decide⟩
  lastVisible := ⟨'b', by decide, by decide⟩

def forecastHeader : TextProductHeader where
  ttaaii := "FXUS61".toList
  cccc := "KBOX".toList
  ddhhmm := "022101".toList
  bbb := none
  afos := "AFDBOX".toList

theorem parse_numberedProduct
    : parseTextProduct asciiDigits (toUtf8 numberedProduct.plain) = .ok forecastHeader := by
  rw [parseTextProduct, fromUtf8Lossy_toUtf8]
  decide +kernel

theorem framed_header_numbered
    : (ldmSequence asciiDigits numberedProduct.start = true
        ∧ NumberedFits asciiDigits numberedProduct)
      ∨ (ldmSequence asciiDigits numberedProduct.start = false
        ∧ RepeatedHeading asciiDigits numberedProduct) := by
  refine (framed_header_iff asciiDigits numberedProduct forecastHeader parse_numberedProduct).mp ?_
  rw [parseTextProduct, fromUtf8Lossy_toUtf8]
  decide +kernel

/-- The framed form of a product that starts with the heading is refused. -/
theorem bareProduct_refused
    : parseTextProduct asciiDigits (toUtf8 bareProduct.plain) = .ok forecastHeader
      ∧ parseTextProduct asciiDigits (toUtf8 (convertToNoaaport bareProduct.delivered))
        = .error (.invalidWmoHeader "AFDBOX".toList) := by
  rw [parseTextProduct, parseTextProduct, fromUtf8Lossy_toUtf8, fromUtf8Lossy_toUtf8]
  decide +kernel

end ProductText

end Emwin.WxWire
