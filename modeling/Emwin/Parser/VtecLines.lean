import Emwin.Parser.Exact
import Emwin.Parser.Vtec

/-! VTEC and HVTEC codes of a text against those of its lines. A span from one slash to the next
may go over line ends, so the codes of a text are those of its lines unless such a span reads as
a code.
-/

namespace Emwin.Parser
open Library

variable {F : Type} (calendar : Calendar) (nwslidEntry : Text → Option (NwslidEntry F))

def parseHvtecCodes (text : Text) : Except Panic (List (HvtecCode F)) :=
  Prod.fst <$> parseHvtecCodesWithIssues calendar nwslidEntry text

theorem parseHvtecCodes_eq (text : Text)
    : parseHvtecCodes calendar nwslidEntry text = .ok (hvtecCodes calendar nwslidEntry text) := by
  obtain ⟨issues, read⟩ := parseHvtecCodesWithIssues_ok calendar nwslidEntry text
  rw [parseHvtecCodes, read]
  rfl

/-- The codes of a text, by a scan of the whole and by one of each line, are the same. -/
def ReadsByLine {α : Type} (parse : Text → Except Panic (List α)) (text : Text) : Prop :=
  ∃ whole perLine,
    parse text = .ok whole ∧ (lines text).mapM parse = .ok perLine ∧ whole = perLine.flatten

/-- No span from one slash to the next that goes over a line end is read. -/
def NothingOverLineEnds {α : Type} (read : Text → Option α) (text : Text) : Prop :=
  ∀ span ∈ delimited '/' text, '\n' ∈ span → read span = none

/-- A scan for spans is one of each line exactly if nothing is read over a line end. -/
theorem readsByLine_iff {α : Type} {parse : Text → Except Panic (List α)}
    {read : Text → Option α}
    (scans : ∀ text, parse text = .ok ((delimited '/' text).filterMap read))
    (text : Text)
    : ReadsByLine parse text ↔ NothingOverLineEnds read text := by
  have stripped (line : Text)
      : (delimited '/' (stripReturn line)).filterMap read
        = (delimited '/' line).filterMap read := by
    unfold stripReturn
    split
    · next last =>
        have absent : '/' ∉ ['\r'] := by decide
        have whole : line.dropLast ++ ['\r'] = line := List.dropLast_append_getLast? '\r' last
        rw [← delimited_append_right absent, whole]
    · rfl
  have perLine :=
    flatMap_lines (f := fun line => (delimited '/' line).filterMap read) rfl stripped text
  have plain : ∀ line ∈ text.splitOn '\n', '\n' ∉ line :=
    fun line member => not_mem_of_mem_splitOn member
  have joined : ['\n'].intercalate (text.splitOn '\n') = text := List.intercalate_splitOn '\n'
  have equal := @filterMap_delimited_intercalate_iff '/' '\n' α read (by decide) _ plain
  rw [joined, ← perLine] at equal
  rw [NothingOverLineEnds, ← equal]
  constructor
  · rintro ⟨whole, codes, scanned, each, same⟩
    obtain rfl := Except.ok.inj ((scans text).symm.trans scanned)
    obtain rfl := Except.ok.inj ((mapM_ok fun line _ => scans line).symm.trans each)
    rw [same, List.flatMap_def]
  · intro same
    exact ⟨_, _, scans text, mapM_ok fun line _ => scans line, by rw [same, List.flatMap_def]⟩

/-- The codes of a text are those of its lines exactly if no span over a line end is a code. -/
theorem codes_by_line_iff (text : Text)
    : ReadsByLine (parseVtecCodes calendar) text
        ∧ ReadsByLine (parseHvtecCodes calendar nwslidEntry) text
      ↔ NothingOverLineEnds (vtecOf calendar) text
        ∧ NothingOverLineEnds (hvtecOf calendar nwslidEntry) text :=
  and_congr (readsByLine_iff (parseVtecCodes_eq calendar) text)
    (readsByLine_iff (parseHvtecCodes_eq calendar nwslidEntry) text)

/-- A code whose office is broken over two lines. -/
def wrappedCode : Text := "/O.NEW.KD\nMX.TO.W.0123.000000T0000Z-000000T0000Z/".toList

/-- The broken code is read with the line end inside. -/
theorem wrappedCode_joined
    : ¬ ∀ (calendar : Calendar) (nwslidEntry : Text → Option (NwslidEntry ℚ)) (text : Text),
        ReadsByLine (parseVtecCodes calendar) text
        ∧ ReadsByLine (parseHvtecCodes calendar nwslidEntry) text := by
  intro all
  have nothing := (readsByLine_iff (parseVtecCodes_eq bareCalendar) wrappedCode).mp
    (all bareCalendar (fun _ => none) wrappedCode).1
  have unread := nothing wrappedCode (by decide +kernel) (by decide)
  revert unread
  decide +kernel

end Emwin.Parser
