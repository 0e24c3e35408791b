import Emwin.Parser.Header

/-! What the WMO and AFOS patterns read, on a line and in the search window. -/

namespace Emwin.Parser
open Library

-----------------------------------------------------------------------------------------
-- The fixed part of a heading
-----------------------------------------------------------------------------------------

/-- The fields that every heading has. -/
structure Fields where
  ttaaii : Text
  cccc : Text
  ddhhmm : Text
  deriving DecidableEq, Repr

namespace Fields

def text (fields : Fields) : Text :=
  fields.ttaaii ++ ' ' :: (fields.cccc ++ ' ' :: fields.ddhhmm)

def captures (fields : Fields) : List (String × Text) :=
  [("ttaaii", fields.ttaaii), ("cccc", fields.cccc), ("ddhhmm", fields.ddhhmm)]

def header (fields : Fields) (bbb : Option Text) : WmoHeaderRef :=
  ⟨fields.ttaaii, fields.cccc, fields.ddhhmm, bbb⟩

end Fields

/-- Four to six upper-case letters and digits, as product designators and AFOS ids are. -/
structure Designator (text : Text) : Prop where
  atLeast : 4 ≤ text.length
  atMost : text.length ≤ 6
  chars : ∀ c ∈ text, isUpperOrDigit c = true

def timeClasses : List (Char → Bool) :=
  [inRange '0' '3', inRange '0' '9', inRange '0' '2', inRange '0' '9', inRange '0' '5',
   inRange '0' '9']

/-- One character of each class. -/
def Fits (classes : List (Char → Bool)) (text : Text) : Prop :=
  List.Forall₂ (fun accepts c => accepts c = true) classes text

structure Fields.Valid (fields : Fields) : Prop where
  ttaaii : Designator fields.ttaaii
  cccc : Fits [isUpper, isUpper, isUpper, isUpper] fields.cccc
  ddhhmm : Fits timeClasses fields.ddhhmm

-- Each leaf of the patterns, by what it takes and leaves.

theorem mem_run_group {name : String} {inner : Regex} {Takes : Text → Prop}
    (inside
      : ∀ {text : Text} {found : RegexMatch},
          found ∈ inner.run text
          ↔ text = found.taken ++ found.rest ∧ found.captures = [] ∧ Takes found.taken)
    {text : Text} {found : RegexMatch}
    : found ∈ (Regex.group name inner).run text
      ↔ ∃ taken rest,
          Takes taken ∧ text = taken ++ rest ∧ found = ⟨taken, rest, [(name, taken)]⟩ := by
  rw [Regex.run, List.mem_map]
  constructor
  · rintro ⟨⟨taken, rest, captures⟩, member, rfl⟩
    obtain ⟨split, none, takes⟩ := inside.mp member
    simp only at split none
    exact ⟨taken, rest, takes, split, by rw [none]⟩
  · rintro ⟨taken, rest, takes, split, rfl⟩
    exact ⟨⟨taken, rest, []⟩, inside.mpr ⟨split, rfl, takes⟩, rfl⟩

theorem mem_run_designator {name : String} {text : Text} {found : RegexMatch}
    : found ∈ (Regex.group name (.between isUpperOrDigit 4 2)).run text
      ↔ ∃ taken rest,
          Designator taken ∧ text = taken ++ rest ∧ found = ⟨taken, rest, [(name, taken)]⟩ := by
  refine mem_run_group fun {text found} => ?_
  rw [Regex.mem_run_between]
  constructor
  · rintro ⟨split, none, enough, few, chars⟩
    exact ⟨split, none, ⟨enough, few, chars⟩⟩
  · rintro ⟨split, none, ⟨enough, few, chars⟩⟩
    exact ⟨split, none, enough, few, chars⟩

theorem mem_run_fits {name : String} {classes : List (Char → Bool)} {text : Text}
    {found : RegexMatch}
    : found ∈ (Regex.group name (.sequence classes)).run text
      ↔ ∃ taken rest,
          Fits classes taken ∧ text = taken ++ rest ∧ found = ⟨taken, rest, [(name, taken)]⟩ :=
  mem_run_group Regex.mem_run_sequence

theorem mem_run_space {text : Text} {found : RegexMatch}
    : found ∈ (Regex.lit [' ']).run text
      ↔ ∃ rest, text = ' ' :: rest ∧ found = ⟨[' '], rest, []⟩ := by
  rw [Regex.lit, Regex.lit, Regex.mem_run_seq]
  constructor
  · rintro ⟨left, leftMember, right, rightMember, rfl⟩
    obtain ⟨c, rest, rfl, same, rfl⟩ := Regex.mem_run_cls.mp leftMember
    obtain rfl : c = ' ' := by simpa using same
    obtain rfl := List.mem_singleton.mp rightMember
    exact ⟨rest, rfl, rfl⟩
  · rintro ⟨rest, rfl, rfl⟩
    exact ⟨⟨[' '], rest, []⟩, Regex.mem_run_cls.mpr ⟨' ', rest, rfl, rfl, rfl⟩, ⟨[], rest, []⟩,
      List.mem_singleton_self _, rfl⟩

theorem mem_run_many {accepts : Char → Bool} {text : Text} {found : RegexMatch}
    : found ∈ (Regex.many accepts).run text
      ↔ ∃ taken rest,
          (∀ c ∈ taken, accepts c = true) ∧ text = taken ++ rest ∧ found = ⟨taken, rest, []⟩ := by
  constructor
  · intro member
    obtain ⟨split, all⟩ := Regex.runMany_split member
    obtain ⟨taken, rest, captures⟩ := found
    have none : captures = [] := Regex.runMany_captures member
    exact ⟨taken, rest, all, split, by rw [none]⟩
  · rintro ⟨taken, rest, all, rfl, rfl⟩
    exact Regex.mem_runMany all

theorem mem_run_empty {text : Text} {found : RegexMatch}
    : found ∈ Regex.empty.run text ↔ found = ⟨[], text, []⟩ := by
  simp [Regex.run]

/-- The matches of the fixed part. -/
theorem mem_run_wmoFields {text : Text} {found : RegexMatch}
    : found ∈ wmoFields.run text
      ↔ ∃ fields rest,
          Fields.Valid fields ∧ text = fields.text ++ rest
          ∧ found = ⟨fields.text, rest, fields.captures⟩ := by
  simp only [wmoFields, Regex.concat, Regex.mem_run_seq]
  constructor
  · rintro ⟨_, first, _, ⟨_, space, _, ⟨_, second, _, ⟨_, space', _, ⟨_, third, _, last, rfl⟩,
      rfl⟩, rfl⟩, rfl⟩, rfl⟩
    obtain ⟨ttaaii, rest, designator, rfl, rfl⟩ := mem_run_designator.mp first
    obtain ⟨rest, rfl, rfl⟩ := mem_run_space.mp space
    obtain ⟨cccc, rest, office, rfl, rfl⟩ := mem_run_fits.mp second
    obtain ⟨rest, rfl, rfl⟩ := mem_run_space.mp space'
    obtain ⟨ddhhmm, rest, time, rfl, rfl⟩ := mem_run_fits.mp third
    obtain rfl := mem_run_empty.mp last
    refine ⟨⟨ttaaii, cccc, ddhhmm⟩, rest, ⟨designator, office, time⟩, ?_, ?_⟩
    · simp [Fields.text]
    · simp [Fields.text, Fields.captures]
  · rintro ⟨⟨ttaaii, cccc, ddhhmm⟩, rest, ⟨designator, office, time⟩, rfl, rfl⟩
    refine ⟨⟨ttaaii, ' ' :: (cccc ++ ' ' :: (ddhhmm ++ rest)), [("ttaaii", ttaaii)]⟩,
      mem_run_designator.mpr ⟨_, _, designator, by simp [Fields.text], rfl⟩,
      _,
      ⟨⟨[' '], cccc ++ ' ' :: (ddhhmm ++ rest), []⟩,
        mem_run_space.mpr ⟨_, rfl, rfl⟩,
        _,
        ⟨⟨cccc, ' ' :: (ddhhmm ++ rest), [("cccc", cccc)]⟩,
          mem_run_fits.mpr ⟨_, _, office, rfl, rfl⟩,
          _,
          ⟨⟨[' '], ddhhmm ++ rest, []⟩,
            mem_run_space.mpr ⟨_, rfl, rfl⟩,
            _,
            ⟨⟨ddhhmm, rest, [("ddhhmm", ddhhmm)]⟩,
              mem_run_fits.mpr ⟨_, _, time, rfl, rfl⟩,
              _, mem_run_empty.mpr rfl, rfl⟩,
            rfl⟩,
          rfl⟩,
        rfl⟩,
      ?_⟩
    simp [Fields.text, Fields.captures]

theorem Designator.takeWhile {text rest : Text} (designator : Designator text)
    (ends : ∀ c, rest.head? = some c → isUpperOrDigit c = false)
    : (text ++ rest).takeWhile isUpperOrDigit = text := by
  rw [List.takeWhile_append_of_pos designator.chars]
  cases rest with
  | nil => simp
  | cons c rest => simp [ends c rfl]

theorem Fields.takeWhile {fields : Fields} (valid : fields.Valid) (rest : Text)
    : (fields.text ++ rest).takeWhile isUpperOrDigit = fields.ttaaii := by
  rw [Fields.text, List.append_assoc]
  refine valid.ttaaii.takeWhile ?_
  rintro _ ⟨rfl⟩
  rfl

theorem Fields.length_text {fields : Fields} (valid : fields.Valid)
    : fields.text.length = fields.ttaaii.length + 12 := by
  have office := valid.cccc.length_eq
  have time := valid.ddhhmm.length_eq
  simp only [timeClasses, List.length_cons, List.length_nil] at office time
  simp only [Fields.text, List.length_append, List.length_cons, ← office, ← time]

/-- A text starts with at most one heading. -/
theorem Fields.unique {fields other : Fields} {rest otherRest : Text} (valid : fields.Valid)
    (otherValid : other.Valid) (same : fields.text ++ rest = other.text ++ otherRest)
    : fields = other ∧ rest = otherRest := by
  have designators : fields.ttaaii = other.ttaaii := by
    rw [← Fields.takeWhile valid rest, same, Fields.takeWhile otherValid]
  have lengths : fields.text.length = other.text.length := by
    rw [Fields.length_text valid, Fields.length_text otherValid, designators]
  obtain ⟨texts, rests⟩ := List.append_inj same lengths
  obtain ⟨ttaaii, cccc, ddhhmm⟩ := fields
  obtain ⟨ttaaii', cccc', ddhhmm'⟩ := other
  obtain rfl : ttaaii = ttaaii' := designators
  have behind := List.cons.inj (List.append_cancel_left texts)
  have offices : cccc.length = cccc'.length := by
    rw [← valid.cccc.length_eq, ← otherValid.cccc.length_eq]
  obtain ⟨rfl, time⟩ := List.append_inj behind.2 offices
  obtain ⟨-, rfl⟩ := List.cons.inj time
  exact ⟨rfl, rests⟩

-----------------------------------------------------------------------------------------
-- The mark behind it
-----------------------------------------------------------------------------------------

def markClasses : List (Char → Bool) := [isOneOf "ACR".toList, isOneOf "ACMORT".toList, isUpper]

def Blank (text : Text) : Prop := ∀ c ∈ text, isWhitespace c = true

/-- The text of a mark that may be missing. -/
def markText (mark : Option Text) : Text := mark.getD []

/-- The matches of the part behind the fields. -/
theorem mem_run_wmoMark {text : Text} {found : RegexMatch}
    : found ∈ wmoMark.run text
      ↔ ∃ before mark after rest,
          Blank before ∧ (∀ m, mark = some m → Fits markClasses m) ∧ Blank after
          ∧ text = before ++ (markText mark ++ (after ++ rest))
          ∧ found
            = ⟨before ++ (markText mark ++ after), rest, mark.toList.map fun m => ("bbb", m)⟩ := by
  simp only [wmoMark, Regex.concat, Regex.mem_run_seq]
  constructor
  · rintro ⟨_, first, _, ⟨_, second, _, ⟨_, third, _, last, rfl⟩, rfl⟩, rfl⟩
    obtain ⟨before, rest, blank, rfl, rfl⟩ := mem_run_many.mp first
    obtain rfl := mem_run_empty.mp last
    rw [Regex.run, List.mem_append] at second
    rcases second with second | second
    · obtain ⟨mark, rest, fits, rfl, rfl⟩ := mem_run_fits.mp second
      obtain ⟨after, rest, blank', rfl, rfl⟩ := mem_run_many.mp third
      refine ⟨before, some mark, after, rest, blank, ?_, blank', rfl, by simp [markText]⟩
      rintro _ ⟨rfl⟩
      exact fits
    · obtain rfl := List.mem_singleton.mp second
      obtain ⟨after, rest, blank', rfl, rfl⟩ := mem_run_many.mp third
      exact ⟨before, none, after, rest, blank, by simp, blank', rfl, by simp [markText]⟩
  · rintro ⟨before, mark, after, rest, blank, fits, blank', rfl, rfl⟩
    refine ⟨⟨before, markText mark ++ (after ++ rest), []⟩,
      mem_run_many.mpr ⟨_, _, blank, rfl, rfl⟩, _,
      ⟨⟨markText mark, after ++ rest, mark.toList.map fun m => ("bbb", m)⟩, ?_, _,
        ⟨⟨after, rest, []⟩, mem_run_many.mpr ⟨_, _, blank', rfl, rfl⟩, _,
          mem_run_empty.mpr rfl, rfl⟩,
        rfl⟩,
      by simp⟩
    rw [Regex.run, List.mem_append]
    cases mark with
    | none => exact .inr (by simp [markText])
    | some m => exact .inl (mem_run_fits.mpr ⟨m, _, fits m rfl, rfl, rfl⟩)

/-- The mark that is read behind the fields, if the rest of the line allows a heading. -/
def bulletinMark (seen : Text) : Option (Option Text) :=
  (wmoMark.matchBefore? atLineEnd seen).map fun found => captureNamed "bbb" found.captures

/-- The heading that a text starts with. -/
def headingAt (text : Text) : Option WmoHeaderRef :=
  (wmoRe.matchBefore? atLineEnd text).map wmoHeaderOf

theorem headingAt_fields {fields : Fields} (valid : fields.Valid) (seen : Text)
    : headingAt (fields.text ++ seen) = (bulletinMark seen).map fields.header := by
  have member : ⟨fields.text, seen, fields.captures⟩ ∈ wmoFields.run (fields.text ++ seen) :=
    mem_run_wmoFields.mpr ⟨fields, seen, valid, rfl, rfl⟩
  have only : ∀ other ∈ wmoFields.run (fields.text ++ seen),
      other = ⟨fields.text, seen, fields.captures⟩ := by
    intro other inside
    obtain ⟨others, rest, otherValid, same, rfl⟩ := mem_run_wmoFields.mp inside
    obtain ⟨rfl, rfl⟩ := Fields.unique valid otherValid same
    rfl
  rw [headingAt, wmoRe, Regex.matchBefore?_seq member only, Option.map_map, bulletinMark,
    Option.map_map]
  rfl

theorem headingAt_none {text : Text}
    (other : ∀ (fields : Fields) rest, fields.Valid → text ≠ fields.text ++ rest)
    : headingAt text = none := by
  have nothing : wmoFields.run text = [] := by
    refine List.eq_nil_iff_forall_not_mem.mpr fun found member => ?_
    obtain ⟨fields, rest, valid, same, -⟩ := mem_run_wmoFields.mp member
    exact other fields rest valid same
  rw [headingAt, wmoRe, Regex.matchBefore?_seq_none nothing]
  rfl

theorem headingAt_eq_some {text : Text} {header : WmoHeaderRef}
    (found : headingAt text = some header)
    : ∃ fields seen, Fields.Valid fields ∧ text = fields.text ++ seen
      ∧ (bulletinMark seen).map fields.header = some header := by
  by_contra absent
  rw [headingAt_none] at found
  · exact absurd found (by simp)
  · rintro fields rest valid rfl
    exact absent ⟨fields, rest, valid, rfl, (headingAt_fields valid rest).symm.trans found⟩

/-- A line that can be marked is marked the same way whatever line follows. -/
theorem bulletinMark_isSome_append {tail : Text} (plain : '\n' ∉ tail)
    (marked : (bulletinMark tail).isSome = true) (rest : Text)
    : (bulletinMark (tail ++ '\n' :: rest)).isSome = true := by
  rw [bulletinMark, Option.isSome_map] at marked ⊢
  obtain ⟨found, first⟩ := Option.isSome_iff_exists.mp marked
  obtain ⟨member, ends⟩ := Regex.mem_of_matchBefore? first
  obtain ⟨before, mark, after, left, blank, fits, blank', split, rfl⟩ :=
    mem_run_wmoMark.mp member
  have whole : left = [] := by
    cases left with
    | nil => rfl
    | cons c left =>
        have newline : c = '\n' := by simpa [atLineEnd] using ends
        exact absurd (by simp [split, newline]) plain
  subst whole
  refine Regex.matchBefore?_isSome (mem_run_wmoMark.mpr
    ⟨before, mark, after, '\n' :: rest, blank, fits, blank', ?_, rfl⟩) rfl
  rw [split]
  simp

-----------------------------------------------------------------------------------------
-- Lines and the window
-----------------------------------------------------------------------------------------

theorem lineStarts_plain {text : Text} (plain : '\n' ∉ text) : lineStarts text = [] := by
  induction text with
  | nil => rfl
  | cons c text ih =>
      have other : c ≠ '\n' := fun same => plain (by simp [same])
      rw [lineStarts, if_neg other, ih fun member => plain (by simp [member])]

theorem lineStarts_append {line : Text} (plain : '\n' ∉ line) (rest : Text)
    : lineStarts (line ++ '\n' :: rest) = rest :: lineStarts rest := by
  induction line with
  | nil => rw [List.nil_append, lineStarts, if_pos rfl]
  | cons c line ih =>
      have other : c ≠ '\n' := fun same => plain (by simp [same])
      rw [List.cons_append, lineStarts, if_neg other, ih fun member => plain (by simp [member])]

/-- The header that the search finds. -/
theorem searchLines?_header (text : Text)
    : (searchLines? wmoRe text).map wmoHeaderOf
      = (text :: lineStarts text).findSome? headingAt := by
  rw [searchLines?]
  generalize text :: lineStarts text = starts
  induction starts with
  | nil => rfl
  | cons start starts ih =>
      rw [List.findSome?_cons, List.findSome?_cons, headingAt]
      cases wmoRe.matchBefore? atLineEnd start with
      | none => exact ih
      | some found => rfl

/-- A line on its own is a heading if its fields and its mark are. -/
theorem searchLines?_isSome_iff {line : Text} (plain : '\n' ∉ line)
    : (searchLines? wmoRe line).isSome = true
      ↔ ∃ fields tail, Fields.Valid fields ∧ line = fields.text ++ tail
        ∧ (bulletinMark tail).isSome = true := by
  have found := searchLines?_header line
  rw [lineStarts_plain plain, List.findSome?_cons] at found
  rw [← Option.isSome_map (f := wmoHeaderOf), found]
  constructor
  · intro some
    cases heading : headingAt line with
    | none => simp [heading] at some
    | some header =>
        obtain ⟨fields, tail, valid, split, mark⟩ := headingAt_eq_some heading
        refine ⟨fields, tail, valid, split, ?_⟩
        rw [← Option.isSome_map (f := fields.header), mark]
        rfl
  · rintro ⟨fields, tail, valid, rfl, marked⟩
    obtain ⟨mark, same⟩ := Option.isSome_iff_exists.mp marked
    rw [headingAt_fields valid, same]
    rfl

theorem parseWmo_eq_ok_iff {text : Text} {wmo : WmoHeaderRef}
    : parseWmo text = .ok wmo
      ↔ (searchLines? wmoRe (searchWindow text)).map wmoHeaderOf = some wmo := by
  unfold parseWmo
  cases searchLines? wmoRe (searchWindow text) <;> simp

theorem searchWindow_prefix (text : Text) : searchWindow text <+: text := by
  unfold searchWindow
  cases split : splitOff 100 text with
  | none => exact List.prefix_rfl
  | some parts => exact ⟨parts.2, (splitOff_eq_some split).1.symm⟩

/-- The mark that the window shows behind the fields of the second line, if it shows them. -/
def markInView (text first : Text) (fields : Fields) : Option (Option Text) :=
  if first ++ '\n' :: fields.text <+: searchWindow text then
    bulletinMark ((searchWindow text).drop (first ++ '\n' :: fields.text).length)
  else none

theorem Fits.not_mem {classes : List (Char → Bool)} {text : Text} (fits : Fits classes text)
    {c : Char} (refused : ∀ accepts ∈ classes, accepts c = false)
    : c ∉ text := by
  induction fits with
  | nil => simp
  | @cons accepts d classes text accepted fits ih =>
      intro member
      rcases List.mem_cons.mp member with rfl | later
      · rw [refused accepts (by simp)] at accepted
        exact absurd accepted (by simp)
      · exact ih (fun other inside => refused other (by simp [inside])) later

theorem Fields.plain {fields : Fields} (valid : fields.Valid) : '\n' ∉ fields.text := by
  have office : '\n' ∉ fields.cccc := valid.cccc.not_mem (by decide)
  have time : '\n' ∉ fields.ddhhmm := valid.ddhhmm.not_mem (by decide)
  have designator : '\n' ∉ fields.ttaaii := by
    intro member
    exact absurd (valid.ttaaii.chars _ member) (by decide)
  simp [Fields.text, designator, office, time]

/-- A part of the fields is no heading. -/
theorem headingAt_part {fields : Fields} (valid : fields.Valid) {part rest : Text}
    (split : fields.text = part ++ rest) (proper : rest ≠ [])
    : headingAt part = none := by
  refine headingAt_none ?_
  rintro other seen otherValid rfl
  rw [List.append_assoc] at split
  have whole : fields.text ++ [] = other.text ++ (seen ++ rest) := by rwa [List.append_nil]
  have none := (Fields.unique valid otherValid whole).2
  simp [proper] at none

theorem findSome?_cons_or {α β : Type} (f : α → Option β) (item : α) (items : List α)
    : (item :: items).findSome? f = (f item).or (items.findSome? f) := by
  rw [List.findSome?_cons]
  cases f item <;> rfl

/-- The second line as far as the window shows it. -/
theorem second_line {first tail rest shown hidden : Text} {fields : Fields}
    (valid : fields.Valid) (tailPlain : '\n' ∉ tail) (marked : (bulletinMark tail).isSome = true)
    (behind : fields.text ++ (tail ++ '\n' :: rest) = shown ++ hidden)
    : (headingAt shown).or ((lineStarts shown).findSome? headingAt)
      = (if first ++ '\n' :: fields.text <+: first ++ '\n' :: shown then
          bulletinMark ((first ++ '\n' :: shown).drop (first ++ '\n' :: fields.text).length)
        else none).map fields.header := by
  by_cases shows : fields.text <+: shown
  · obtain ⟨seen, rfl⟩ := shows
    rw [List.append_assoc] at behind
    have back := List.append_cancel_left behind
    have visible : first ++ '\n' :: fields.text <+: first ++ '\n' :: (fields.text ++ seen) :=
      ⟨seen, by simp⟩
    have regrouped : first ++ '\n' :: (fields.text ++ seen)
        = (first ++ '\n' :: fields.text) ++ seen := by
      simp
    rw [if_pos visible, regrouped, List.drop_left, headingAt_fields valid]
    cases mark : bulletinMark seen with
    | some found => rfl
    | none =>
        -- a line that is shown to its end would have a mark
        have plain : '\n' ∉ fields.text ++ seen := by
          have seenPlain : '\n' ∉ seen := by
            intro member
            rcases List.append_eq_append_iff.mp back with ⟨more, rfl, last⟩ | ⟨more, rfl, -⟩
            · cases more with
              | nil => exact tailPlain (by simpa using member)
              | cons c more =>
                  obtain ⟨rfl, -⟩ := List.cons.inj last
                  have some := bulletinMark_isSome_append tailPlain marked more
                  rw [mark] at some
                  exact absurd some (by simp)
            · exact tailPlain (by simp [member])
          simp [Fields.plain valid, seenPlain]
        rw [lineStarts_plain plain]
        rfl
  · obtain ⟨cut, part⟩ : shown <+: fields.text :=
      (List.prefix_or_prefix_of_prefix ⟨_, rfl⟩ ⟨_, behind.symm⟩).resolve_left shows
    have proper : cut ≠ [] := by
      rintro rfl
      exact shows ⟨[], by rw [List.append_nil, ← part, List.append_nil]⟩
    have plain : '\n' ∉ shown := fun member => Fields.plain valid (by simp [← part, member])
    have hiddenFields : ¬ first ++ '\n' :: fields.text <+: first ++ '\n' :: shown := by
      intro visible
      have longer := visible.length_le
      have some := List.length_pos_of_ne_nil proper
      simp only [← part, List.length_append, List.length_cons] at longer
      omega
    rw [headingAt_part valid part.symm proper, lineStarts_plain plain, if_neg hiddenFields]
    rfl

/-- What the search finds in the window of a text whose second line is a heading: a heading in
the first line, or the one in the second as far as the window shows it.
-/
theorem searchLines?_window {first tail rest text : Text} {fields : Fields}
    (firstPlain : '\n' ∉ first) (tailPlain : '\n' ∉ tail) (valid : fields.Valid)
    (marked : (bulletinMark tail).isSome = true)
    (written : text = first ++ '\n' :: (fields.text ++ (tail ++ '\n' :: rest)))
    : (searchLines? wmoRe (searchWindow text)).map wmoHeaderOf
      = (headingAt (searchWindow text)).or ((markInView text first fields).map fields.header) := by
  rw [searchLines?_header, findSome?_cons_or]
  obtain ⟨hidden, whole⟩ := searchWindow_prefix text
  unfold markInView
  generalize searchWindow text = window at whole ⊢
  rw [written] at whole
  cases headingAt window with
  | some header => rfl
  | none =>
      rw [Option.none_or]
      rcases List.append_eq_append_iff.mp whole with ⟨more, front, back⟩ | ⟨more, rfl, back⟩
      · -- the window ends in the first line
        have windowPlain : '\n' ∉ window := fun member => firstPlain (by simp [front, member])
        have short : ¬ first ++ '\n' :: fields.text <+: window := by
          intro shown
          have longer := shown.length_le
          have lengths := congrArg List.length front
          simp only [List.length_append, List.length_cons] at longer lengths
          omega
        rw [lineStarts_plain windowPlain, if_neg short]
        rfl
      · cases more with
        | nil =>
            have windowPlain : '\n' ∉ first ++ [] := by simpa using firstPlain
            have short : ¬ first ++ '\n' :: fields.text <+: first ++ [] := by
              intro shown
              have longer := shown.length_le
              simp only [List.append_nil, List.length_append, List.length_cons] at longer
              omega
            rw [lineStarts_plain windowPlain, if_neg short]
            rfl
        | cons c shown =>
            obtain ⟨rfl, behind⟩ := List.cons.inj back
            rw [lineStarts_append firstPlain, findSome?_cons_or]
            exact second_line valid tailPlain marked behind

-----------------------------------------------------------------------------------------
-- The AFOS line
-----------------------------------------------------------------------------------------

/-- The AFOS id on a line. -/
def afosOf (line : Text) : Option Text := (afosRe.captures? line).bind (captureNamed "1")

theorem mem_run_afosRe {line : Text} {found : RegexMatch} (member : found ∈ afosRe.run line)
    : ∃ afos blank,
        Designator afos ∧ Blank blank ∧ line = afos ++ blank
        ∧ found.captures = [("1", afos)] := by
  simp only [afosRe, Regex.concat, Regex.mem_run_seq] at member
  obtain ⟨_, first, _, ⟨_, second, _, ⟨_, third, _, ⟨_, fourth, _, last, rfl⟩, rfl⟩, rfl⟩, rfl⟩ :=
    member
  obtain ⟨afos, rest, designator, rfl, rfl⟩ := mem_run_designator.mp first
  obtain ⟨blank, rest, isBlank, rfl, rfl⟩ := mem_run_many.mp second
  obtain ⟨tabs, rest, isTabs, rfl, rfl⟩ := mem_run_many.mp third
  obtain rfl := mem_run_empty.mp last
  have fourth : _ ∈ Regex.endOfText.run rest := fourth
  cases rest with
  | cons c rest => exact absurd fourth (by simp [Regex.run])
  | nil =>
      obtain rfl := List.mem_singleton.mp fourth
      refine ⟨afos, blank ++ tabs, designator, ?_, by simp, by simp⟩
      intro c inside
      rcases List.mem_append.mp inside with inBlank | inTabs
      · exact isBlank c inBlank
      · have tab : c = '\t' := by simpa using isTabs c inTabs
        rw [tab]
        rfl

theorem run_afosRe {afos blank : Text} (designator : Designator afos) (isBlank : Blank blank)
    : ⟨afos ++ blank, [], [("1", afos)]⟩ ∈ afosRe.run (afos ++ blank) := by
  simp only [afosRe, Regex.concat, Regex.mem_run_seq]
  exact ⟨⟨afos, blank, [("1", afos)]⟩, mem_run_designator.mpr ⟨_, _, designator, rfl, rfl⟩, _,
    ⟨⟨blank, [], []⟩, mem_run_many.mpr ⟨_, _, isBlank, by simp, rfl⟩, _,
      ⟨⟨[], [], []⟩, mem_run_many.mpr ⟨_, _, by simp, rfl, rfl⟩, _,
        ⟨⟨[], [], []⟩, List.mem_singleton_self _, _, mem_run_empty.mpr rfl, rfl⟩,
        rfl⟩,
      rfl⟩,
    by simp⟩

theorem isWhitespace_of_upperOrDigit {c : Char} (accepted : isUpperOrDigit c = true)
    : isWhitespace c = false := by
  have range : 48 ≤ c.toNat ∧ c.toNat ≤ 90 := by
    simp only [isUpperOrDigit, isUpper, inRange, Bool.or_eq_true, Bool.and_eq_true,
      decide_eq_true_eq, Char.le_def, UInt32.le_iff_toNat_le] at accepted
    change _ ∧ _ ∨ _ ∧ _ at accepted
    have toNat : c.val.toNat = c.toNat := rfl
    simp only [toNat, show 'A'.val.toNat = 65 from rfl, show 'Z'.val.toNat = 90 from rfl,
      show '0'.val.toNat = 48 from rfl, show '9'.val.toNat = 57 from rfl] at accepted
    omega
  exact isWhitespace_eq_false (by omega) (by omega)

/-- What stands behind a designator and is blank does not continue it. -/
theorem Blank.ends {blank : Text} (isBlank : Blank blank)
    : ∀ c, blank.head? = some c → isUpperOrDigit c = false := by
  intro c first
  have space := isBlank c (List.mem_of_head? first)
  by_contra accepted
  rw [isWhitespace_of_upperOrDigit (by simpa using accepted)] at space
  exact absurd space (by simp)

theorem afosOf_eq_some_iff {line afos : Text}
    : afosOf line = some afos ↔ Designator afos ∧ ∃ blank, Blank blank ∧ line = afos ++ blank := by
  constructor
  · intro found
    obtain ⟨captures, matched, named⟩ := Option.bind_eq_some_iff.mp found
    obtain ⟨first, head, rfl⟩ := Option.map_eq_some_iff.mp matched
    obtain ⟨id, blank, designator, isBlank, rfl, same⟩ :=
      mem_run_afosRe (List.mem_of_head? head)
    rw [same] at named
    obtain rfl := Option.some.inj named
    exact ⟨designator, blank, isBlank, rfl⟩
  · rintro ⟨designator, blank, isBlank, rfl⟩
    have member := run_afosRe designator isBlank
    cases run : afosRe.run (afos ++ blank) with
    | nil =>
        rw [run] at member
        exact absurd member (by simp)
    | cons first others =>
        have listed : first ∈ afosRe.run (afos ++ blank) := by simp [run]
        obtain ⟨id, spaces, other, areBlank, same, captures⟩ := mem_run_afosRe listed
        have ids : afos = id := by
          rw [← designator.takeWhile isBlank.ends, same, other.takeWhile areBlank.ends]
        rw [afosOf, Regex.captures?, run, ids]
        change (some first.captures).bind _ = _
        rw [captures]
        rfl

/-- An AFOS line does not start a heading, whatever line follows. -/
theorem afos_ne_fields {afos blank rest seen : Text} {fields : Fields}
    (designator : Designator afos) (isBlank : Blank blank)
    (lineEnds : rest = [] ∨ rest.head? = some '\n') (valid : fields.Valid)
    : afos ++ (blank ++ rest) ≠ fields.text ++ seen := by
  intro same
  have spaces : ∀ c, (blank ++ rest).head? = some c → isWhitespace c = true := by
    intro c first
    cases blank with
    | cons space blank =>
        obtain rfl := Option.some.inj first
        exact isBlank space (by simp)
    | nil =>
        rcases lineEnds with rfl | newline
        · exact absurd first (by simp)
        · obtain rfl := Option.some.inj (newline.symm.trans first)
          rfl
  have ids : afos = fields.ttaaii := by
    have ends : ∀ c, (blank ++ rest).head? = some c → isUpperOrDigit c = false := by
      intro c first
      by_contra accepted
      have space := spaces c first
      rw [isWhitespace_of_upperOrDigit (by simpa using accepted)] at space
      exact absurd space (by simp)
    rw [← designator.takeWhile ends, same, Fields.takeWhile valid]
  rw [ids, Fields.text, List.append_assoc] at same
  have behind : blank ++ rest = ' ' :: (fields.cccc ++ ' ' :: fields.ddhhmm ++ seen) :=
    List.append_cancel_left same
  obtain ⟨ttaaii, cccc, ddhhmm⟩ := fields
  cases valid.cccc with
  | @cons _ c _ cccc accepted _ =>
      have upper : isUpperOrDigit c = true := by
        rw [isUpperOrDigit, accepted]
        rfl
      have space : isWhitespace c = true := by
        cases blank with
        | nil =>
            rcases lineEnds with rfl | newline
            · exact absurd behind (by simp)
            · rw [List.nil_append] at behind
              rw [behind] at newline
              exact absurd (Option.some.inj newline) (by decide)
        | cons space blank =>
            have inner := (List.cons.inj behind).2
            cases blank with
            | cons next blank =>
                obtain ⟨rfl, -⟩ := List.cons.inj inner
                exact isBlank next (by simp)
            | nil =>
                rcases lineEnds with rfl | newline
                · exact absurd inner (by simp)
                · change rest = _ at inner
                  rw [inner] at newline
                  obtain rfl := Option.some.inj newline
                  rfl
      rw [isWhitespace_of_upperOrDigit upper] at space
      exact absurd space (by simp)

/-- In a window that starts with an AFOS line there is no heading at its start. -/
theorem headingAt_afos {line afos rest text : Text} (found : afosOf line = some afos)
    (written : text = line ++ '\n' :: rest)
    : headingAt (searchWindow text) = none := by
  obtain ⟨designator, blank, isBlank, rfl⟩ := afosOf_eq_some_iff.mp found
  obtain ⟨hidden, whole⟩ := searchWindow_prefix text
  refine headingAt_none fun fields seen valid same => ?_
  rw [same, written, List.append_assoc, List.append_assoc] at whole
  exact afos_ne_fields designator isBlank (.inr rfl) valid whole.symm

theorem searchLines?_afos {line afos : Text} (found : afosOf line = some afos)
    (plain : '\n' ∉ line)
    : (searchLines? wmoRe line).isSome = false := by
  obtain ⟨designator, blank, isBlank, rfl⟩ := afosOf_eq_some_iff.mp found
  rw [← Bool.not_eq_true, searchLines?_isSome_iff plain]
  rintro ⟨fields, tail, valid, same, -⟩
  have whole : afos ++ (blank ++ []) = fields.text ++ tail := by
    rw [List.append_nil]
    exact same
  exact afos_ne_fields designator isBlank (.inl rfl) valid whole

/-- The line that conditioning adds. -/
def addedLine : Text := "000 ".toList

theorem headingAt_added {rest text : Text} (written : text = addedLine ++ '\n' :: rest)
    : headingAt (searchWindow text) = none := by
  obtain ⟨hidden, whole⟩ := searchWindow_prefix text
  refine headingAt_none fun fields seen valid same => ?_
  rw [same, written, List.append_assoc] at whole
  have ids := Fields.takeWhile valid (seen ++ hidden)
  rw [whole] at ids
  have three : fields.ttaaii = "000".toList := by
    rw [← ids]
    rfl
  have enough := valid.ttaaii.atLeast
  rw [three] at enough
  exact absurd enough (by decide)

end Emwin.Parser
