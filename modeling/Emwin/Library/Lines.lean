import Emwin.Library.Characters

/-! Texts as lines: `str::lines`, and lines written with a line feed behind each. -/

namespace Library

/-- A line without the carriage return before its line feed. -/
def stripReturn (line : Text) : Text :=
  if line.getLast? = some '\r' then line.dropLast else line

/-- The lines of a text that goes on with an unfinished line. -/
def linesFrom (line : Text) : Text → List Text
  | [] => if line = [] then [] else [line]
  | c :: rest =>
      if c = '\n' then stripReturn line :: linesFrom [] rest else linesFrom (line ++ [c]) rest

/-- `str::lines`. -/
def lines (text : Text) : List Text := linesFrom [] text

/-- Each line with a line feed behind it. -/
def unlines (list : List Text) : Text := list.flatMap (· ++ ['\n'])

@[simp] theorem unlines_nil : unlines [] = [] := rfl

@[simp] theorem unlines_cons (line : Text) (list : List Text)
    : unlines (line :: list) = line ++ '\n' :: unlines list := by
  simp [unlines]

@[simp] theorem unlines_append (left right : List Text)
    : unlines (left ++ right) = unlines left ++ unlines right :=
  List.flatMap_append

/-- A line with neither of the characters that end lines. -/
def Plain (line : Text) : Prop := '\n' ∉ line ∧ '\r' ∉ line

theorem stripReturn_plain {line : Text} (plain : Plain line) : stripReturn line = line := by
  refine if_neg fun last => plain.2 ?_
  exact List.mem_of_getLast? last

/-- Up to the end of a line, by induction on what is left of it. -/
theorem linesFrom_append {line more : Text} (plain : Plain (line ++ more)) (rest : Text)
    : linesFrom line (more ++ '\n' :: rest) = (line ++ more) :: lines rest := by
  induction more generalizing line with
  | nil =>
      rw [List.append_nil] at plain ⊢
      rw [List.nil_append, linesFrom, if_pos rfl, stripReturn_plain plain]
      rfl
  | cons c more ih =>
      have other : c ≠ '\n' := by
        rintro rfl
        exact plain.1 (by simp)
      rw [List.cons_append, linesFrom, if_neg other, ih (by simpa using plain)]
      simp

theorem lines_cons {line : Text} (plain : Plain line) (rest : Text)
    : lines (line ++ '\n' :: rest) = line :: lines rest :=
  @linesFrom_append [] line plain rest

/-- A part without a line feed goes to the line, by induction on it. -/
theorem linesFrom_part {part : Text} (plain : '\n' ∉ part) (line rest : Text)
    : linesFrom line (part ++ rest) = linesFrom (line ++ part) rest := by
  induction part generalizing line with
  | nil => rw [List.nil_append, List.append_nil]
  | cons c part ih =>
      have other : c ≠ '\n' := by
        rintro rfl
        exact plain (by simp)
      rw [List.cons_append, linesFrom, if_neg other, ih fun member => plain (by simp [member]),
        List.append_assoc, List.singleton_append]

/-- A last line without a line feed. -/
theorem linesFrom_last {line more : Text} (plain : '\n' ∉ more) (nonempty : line ++ more ≠ [])
    : linesFrom line more = [line ++ more] := by
  induction more generalizing line with
  | nil =>
      rw [List.append_nil] at nonempty ⊢
      exact if_neg nonempty
  | cons c more ih =>
      have other : c ≠ '\n' := by
        rintro rfl
        exact plain (by simp)
      rw [linesFrom, if_neg other, ih (fun member => plain (by simp [member])) (by simp)]
      simp

/-- Lines read back what was written, with or without the last line feed. By induction on the
lines.
-/
theorem lines_unlines {list : List Text} (plain : ∀ line ∈ list, Plain line)
    : lines (unlines list) = list := by
  induction list with
  | nil => rfl
  | cons line list ih =>
      rw [unlines_cons, lines_cons (plain line (by simp)),
        ih fun other member => plain other (by simp [member])]

theorem lines_unlines_append {list : List Text} {last : Text}
    (plain : ∀ line ∈ list, Plain line) (lastPlain : '\n' ∉ last) (nonempty : last ≠ [])
    : lines (unlines list ++ last) = list ++ [last] := by
  induction list with
  | nil => exact linesFrom_last lastPlain nonempty
  | cons line list ih =>
      rw [unlines_cons, List.append_assoc, List.cons_append, lines_cons (plain line (by simp)),
        ih fun other member => plain other (by simp [member])]
      rfl

end Library
