import Emwin.Library.Slices
import Mathlib.Data.List.TakeWhile

/-! Spans of a text from one delimiter to the next. -/

namespace Library

/-- The spans from each occurrence of a character to the next one, both included. -/
def delimited (c : Char) : Text → List Text
  | [] => []
  | first :: rest =>
      if first = c then
        ((splitOnce c rest).map fun (inner, _) => c :: (inner ++ [c])).toList ++ delimited c rest
      else delimited c rest

/-- `str::split_whitespace`. -/
def splitWhitespace (text : Text) : List Text :=
  (text.splitOnP isWhitespace).filter (· ≠ [])

/-- `str::trim_end`. -/
def trimEnd (text : Text) : Text := trimEndWhile isWhitespace text

/-- `str::trim_start`. -/
def trimStart (text : Text) : Text := text.dropWhile isWhitespace

theorem mem_dropWhile {c : Char} {drop : Char → Bool} {text : Text} (member : c ∈ text)
    (kept : drop c = false)
    : c ∈ text.dropWhile drop := by
  rw [← @List.takeWhile_append_dropWhile _ drop text] at member
  rcases List.mem_append.mp member with inFront | behind
  · have dropped := List.all_eq_true.mp List.all_takeWhile c inFront
    simp [kept] at dropped
  · exact behind

/-- A text is what is left of it at the end, and blanks. -/
theorem exists_trimEnd_append (text : Text)
    : ∃ blanks, text = trimEnd text ++ blanks ∧ ∀ c ∈ blanks, isWhitespace c = true := by
  refine ⟨(text.reverse.takeWhile isWhitespace).reverse, ?_, ?_⟩
  · rw [trimEnd, trimEndWhile, ← List.reverse_append, List.takeWhile_append_dropWhile,
      List.reverse_reverse]
  · intro c member
    exact List.all_eq_true.mp List.all_takeWhile c (List.mem_reverse.mp member)

/-- Trimming keeps what is no whitespace. -/
theorem mem_trim {c : Char} {text : Text} (member : c ∈ text) (visible : isWhitespace c = false)
    : c ∈ trim text := by
  rw [trim, trimEndWhile, List.mem_reverse]
  exact mem_dropWhile (List.mem_reverse.mpr (mem_dropWhile member visible)) visible

theorem delimited_cons (c first : Char) (rest : Text)
    : delimited c (first :: rest)
      = if first = c then
          ((splitOnce c rest).map fun (inner, _) => c :: (inner ++ [c])).toList ++ delimited c rest
        else delimited c rest := rfl

-----------------------------------------------------------------------------------------
-- First occurrences
-----------------------------------------------------------------------------------------

theorem all_ne_of_not_mem {c : Char} {text : Text} (absent : c ∉ text)
    : ∀ d ∈ text, decide (d ≠ c) = true := by
  intro d member
  exact decide_eq_true fun same => absent (same ▸ member)

theorem splitOnce_eq_none {c : Char} {text : Text} (absent : c ∉ text)
    : splitOnce c text = none := by
  have gone : text.dropWhile (· ≠ c) = [] := List.dropWhile_eq_nil_iff.2 (all_ne_of_not_mem absent)
  rw [splitOnce, gone]

/-- The first occurrence is behind a part without the character. -/
theorem splitOnce_append_cons {c : Char} {before : Text} (after : Text) (absent : c ∉ before)
    : splitOnce c (before ++ c :: after) = some (before, after) := by
  rw [splitOnce, List.dropWhile_append_of_pos (all_ne_of_not_mem absent),
    List.takeWhile_append_of_pos (all_ne_of_not_mem absent)]
  simp

/-- A text has a character, and then a first occurrence of it, or does not have it. -/
theorem exists_first_or_not_mem (c : Char) (text : Text)
    : (∃ before after, text = before ++ c :: after ∧ c ∉ before) ∨ c ∉ text := by
  by_cases member : c ∈ text
  · exact .inl (List.eq_append_cons_of_mem member)
  · exact .inr member

theorem splitOnce_eq_some {c : Char} {text before after : Text}
    (found : splitOnce c text = some (before, after))
    : text = before ++ c :: after ∧ c ∉ before := by
  obtain ⟨front, behind, rfl, free⟩ | free := exists_first_or_not_mem c text
  · rw [splitOnce_append_cons behind free] at found
    obtain ⟨rfl, rfl⟩ : front = before ∧ behind = after := by simpa using found
    exact ⟨rfl, free⟩
  · rw [splitOnce_eq_none free] at found
    cases found

-----------------------------------------------------------------------------------------
-- Spans of joined texts
-----------------------------------------------------------------------------------------

variable {c sep : Char}

/-- No span starts in a part without the delimiter, by induction on it. -/
theorem delimited_append_of_not_mem {left : Text} (absent : c ∉ left) (right : Text)
    : delimited c (left ++ right) = delimited c right := by
  induction left with
  | nil => rfl
  | cons first left ih =>
      have other : first ≠ c := fun same => absent (same ▸ List.mem_cons_self)
      rw [List.cons_append, delimited, if_neg other, ih fun member => absent (by simp [member])]

theorem delimited_of_not_mem {text : Text} (absent : c ∉ text) : delimited c text = [] := by
  simpa [delimited] using delimited_append_of_not_mem absent []

/-- No span ends in a part without the delimiter, by induction on what stands before it. -/
theorem delimited_append_right {right : Text} (absent : c ∉ right) (left : Text)
    : delimited c (left ++ right) = delimited c left := by
  induction left with
  | nil => exact delimited_of_not_mem absent
  | cons first left ih =>
      rw [List.cons_append, delimited_cons, delimited_cons, ih]
      obtain ⟨before, after, rfl, free⟩ | free := exists_first_or_not_mem c left
      · rw [List.append_assoc, List.cons_append, splitOnce_append_cons _ free,
          splitOnce_append_cons _ free]
        rfl
      · rw [splitOnce_eq_none free, splitOnce_eq_none (by simp [free, absent])]

/-- A span that starts at the end of the left part goes over the separator. -/
theorem sep_mem_of_splitOnce {left right inner after : Text} (other : sep ≠ c)
    (absent : c ∉ left) (found : splitOnce c (left ++ sep :: right) = some (inner, after))
    : sep ∈ inner := by
  obtain ⟨before, rest, rfl, none⟩ | none := exists_first_or_not_mem c right
  · have free : c ∉ left ++ sep :: before := by
      simp [absent, none, other.symm]
    have split := splitOnce_append_cons rest free
    rw [List.append_assoc, List.cons_append, found] at split
    obtain ⟨rfl, -⟩ := Prod.mk.inj (Option.some.inj split)
    simp
  · have free : c ∉ left ++ sep :: right := by
      simp [absent, none, other.symm]
    rw [splitOnce_eq_none free] at found
    cases found

/-- At most one span of a text goes over a given place that holds no delimiter, by induction
on what stands before it.
-/
theorem delimited_append_cons (other : sep ≠ c) (left right : Text)
    : ∃ crossing : Option Text, (∀ span ∈ crossing, sep ∈ span)
      ∧ delimited c (left ++ sep :: right)
        = delimited c left ++ crossing.toList ++ delimited c right := by
  induction left with
  | nil => exact ⟨none, nofun, by simp [delimited, other]⟩
  | cons first left ih =>
      rw [List.cons_append, delimited_cons, delimited_cons]
      split
      · obtain ⟨before, after, rfl, absent⟩ | absent := exists_first_or_not_mem c left
        · obtain ⟨crossing, beyond, same⟩ := ih
          refine ⟨crossing, beyond, ?_⟩
          rw [same, List.append_assoc before, List.cons_append, splitOnce_append_cons _ absent,
            splitOnce_append_cons _ absent]
          simp
        · -- the text is at its last delimiter before the separator
          refine ⟨(splitOnce c (left ++ sep :: right)).map fun (inner, _) => c :: (inner ++ [c]),
            ?_, ?_⟩
          · intro span member
            obtain ⟨⟨inner, after⟩, found, rfl⟩ := Option.map_eq_some_iff.mp member
            simp [sep_mem_of_splitOnce other absent found]
          · have rest : delimited c (left ++ sep :: right) = delimited c right := by
              rw [delimited_append_of_not_mem absent, delimited, if_neg other]
            rw [rest, splitOnce_eq_none absent, delimited_of_not_mem absent]
            simp
      · exact ih

theorem mem_delimited_left (other : sep ≠ c) {left span : Text} (right : Text)
    (member : span ∈ delimited c left)
    : span ∈ delimited c (left ++ sep :: right) := by
  obtain ⟨crossing, -, same⟩ := delimited_append_cons other left right
  simp [same, member]

theorem mem_delimited_right (other : sep ≠ c) (left : Text) {right span : Text}
    (member : span ∈ delimited c right)
    : span ∈ delimited c (left ++ sep :: right) := by
  obtain ⟨crossing, -, same⟩ := delimited_append_cons other left right
  simp [same, member]

/-- Joining two lists of lines, by induction on the first. -/
theorem intercalate_append {left right : List Text} (nonempty : left ≠ []) (more : right ≠ [])
    : [sep].intercalate (left ++ right)
      = [sep].intercalate left ++ sep :: [sep].intercalate right := by
  induction left with
  | nil => exact absurd rfl nonempty
  | cons first left ih =>
      cases left with
      | nil =>
          cases right with
          | nil => exact absurd rfl more
          | cons second right => simp [List.intercalate_cons_cons]
      | cons second left =>
          have joined := ih (List.cons_ne_nil second left)
          rw [List.cons_append] at joined
          rw [List.cons_append, List.cons_append, List.intercalate_cons_cons, joined,
            List.intercalate_cons_cons]
          simp

/-- The spans of some of the lines are spans of all of them. -/
theorem mem_delimited_block (other : sep ≠ c) (before after : List Text) {block : List Text}
    {span : Text} (member : span ∈ delimited c ([sep].intercalate block))
    : span ∈ delimited c ([sep].intercalate (before ++ (block ++ after))) := by
  have nonempty : block ≠ [] := by
    rintro rfl
    simp [delimited] at member
  have inFront : span ∈ delimited c ([sep].intercalate (block ++ after)) := by
    by_cases last : after = []
    · simpa [last] using member
    · rw [intercalate_append nonempty last]
      exact mem_delimited_left other _ member
  by_cases first : before = []
  · simpa [first] using inFront
  · rw [intercalate_append first (by simp [nonempty])]
    exact mem_delimited_right other _ inFront

/-- Reading the spans of joined lines is reading those of each line, if nothing is read from a
span over a separator. By induction on the lines.
-/
theorem filterMap_delimited_intercalate {β : Type} {read : Text → Option β} (other : sep ≠ c)
    {lines : List Text}
    (quiet : ∀ span ∈ delimited c ([sep].intercalate lines), sep ∈ span → read span = none)
    : (delimited c ([sep].intercalate lines)).filterMap read
      = lines.flatMap fun line => (delimited c line).filterMap read := by
  induction lines with
  | nil => rfl
  | cons first rest ih =>
      by_cases last : rest = []
      · simp [last]
      · have joined := @intercalate_append sep [first] rest (by simp) last
        rw [List.singleton_append, List.intercalate_singleton] at joined
        rw [joined] at quiet ⊢
        obtain ⟨crossing, beyond, same⟩ :=
          delimited_append_cons other first ([sep].intercalate rest)
        have unread : crossing.toList.filterMap read = [] := by
          cases crossing with
          | none => rfl
          | some span => simp [quiet span (by simp [same]) (beyond span rfl)]
        rw [same, List.filterMap_append, List.filterMap_append, unread, List.append_nil,
          List.flatMap_cons, ih fun span member => quiet span (mem_delimited_right other _ member)]

theorem mem_span_of_mem {text span : Text} (member : span ∈ delimited c text) {d : Char}
    (inside : d ∈ span)
    : d ∈ text := by
  induction text with
  | nil => cases member
  | cons first text ih =>
      rw [delimited_cons] at member
      split at member
      · next same =>
          rcases List.mem_append.mp member with here | later
          · obtain ⟨before, after, rfl, free⟩ | free := exists_first_or_not_mem c text
            · rw [splitOnce_append_cons _ free] at here
              obtain rfl := List.mem_singleton.mp here
              simp only [List.mem_cons, List.mem_append, List.not_mem_nil, or_false] at inside ⊢
              rcases inside with rfl | inside | rfl
              · exact .inl same.symm
              · exact .inr (.inl inside)
              · exact .inl same.symm
            · rw [splitOnce_eq_none free] at here
              cases here
          · exact List.mem_cons_of_mem _ (ih later)
      · exact List.mem_cons_of_mem _ (ih member)

/-- At least the spans of each line are read, by induction on the lines. -/
theorem length_flatMap_delimited_le {β : Type} (read : Text → Option β) (other : sep ≠ c)
    (lines : List Text)
    : (lines.flatMap fun line => (delimited c line).filterMap read).length
      ≤ ((delimited c ([sep].intercalate lines)).filterMap read).length := by
  induction lines with
  | nil => exact Nat.zero_le _
  | cons first rest ih =>
      by_cases last : rest = []
      · simp [last]
      · have joined := @intercalate_append sep [first] rest (by simp) last
        rw [List.singleton_append, List.intercalate_singleton] at joined
        obtain ⟨crossing, -, same⟩ := delimited_append_cons other first ([sep].intercalate rest)
        rw [joined, same, List.flatMap_cons]
        simp only [List.filterMap_append, List.length_append]
        omega

/-- The spans of joined lines are read line by line exactly if nothing is read from a span over a
separator. By induction on the lines.
-/
theorem filterMap_delimited_intercalate_iff {β : Type} {read : Text → Option β} (other : sep ≠ c)
    {lines : List Text} (plain : ∀ line ∈ lines, sep ∉ line)
    : (delimited c ([sep].intercalate lines)).filterMap read
        = (lines.flatMap fun line => (delimited c line).filterMap read)
      ↔ ∀ span ∈ delimited c ([sep].intercalate lines), sep ∈ span → read span = none := by
  refine ⟨?_, filterMap_delimited_intercalate other⟩
  induction lines with
  | nil => exact fun _ => nofun
  | cons first rest ih =>
      have here (span : Text) (member : span ∈ delimited c first) (beyond : sep ∈ span)
          : read span = none :=
        absurd (mem_span_of_mem member beyond) (plain first (by simp))
      by_cases last : rest = []
      · subst last
        intro _ span member
        exact here span (by simpa using member)
      · have joined := @intercalate_append sep [first] rest (by simp) last
        rw [List.singleton_append, List.intercalate_singleton] at joined
        obtain ⟨crossing, -, same⟩ := delimited_append_cons other first ([sep].intercalate rest)
        rw [joined, same, List.flatMap_cons]
        intro equal
        have lengths := congrArg List.length equal
        have least := length_flatMap_delimited_le read other rest
        simp only [List.filterMap_append, List.length_append] at lengths
        have none : crossing.toList.filterMap read = [] := List.length_eq_zero_iff.mp (by omega)
        simp only [List.filterMap_append, none, List.append_nil] at equal
        have later := ih (fun line member => plain line (by simp [member]))
          (List.append_cancel_left equal)
        intro span member beyond
        simp only [List.mem_append] at member
        rcases member with (inFirst | crosses) | inRest
        · exact here span inFirst beyond
        · exact List.filterMap_eq_nil_iff.mp none span crosses
        · exact later span inRest beyond

/-- No piece has the separator, by induction on the text. -/
theorem not_mem_of_mem_splitOn {text piece : Text} (member : piece ∈ text.splitOn sep)
    : sep ∉ piece := by
  induction text generalizing piece with
  | nil =>
      obtain rfl := List.mem_singleton.mp member
      simp
  | cons first text ih =>
      rw [List.splitOn_cons_eq_if_modifyHead] at member
      split at member
      · rcases List.mem_cons.mp member with rfl | later
        · simp
        · exact ih later
      · next other =>
          obtain ⟨head, tail, pieces⟩ := List.exists_cons_of_ne_nil (List.splitOn_ne_nil sep text)
          rw [pieces] at member ih
          rcases List.mem_cons.mp member with rfl | later
          · have absent := ih List.mem_cons_self
            simp only [beq_iff_eq] at other
            simp [absent, Ne.symm other]
          · exact ih (List.mem_cons_of_mem _ later)

/-- What is read of each line does not depend on the carriage return before a line end, nor on an
empty line at the end. By induction on the text.
-/
theorem flatMap_linesFrom {β : Type} {f : Text → List β} (empty : f [] = [])
    (returns : ∀ line, f (stripReturn line) = f line) (line text : Text)
    : (linesFrom line text).flatMap f
      = ((text.splitOn '\n').modifyHead (line ++ ·)).flatMap f := by
  induction text generalizing line with
  | nil =>
      rw [linesFrom, List.splitOn_nil]
      split
      · next none => simp [none, empty]
      · simp
  | cons first text ih =>
      rw [linesFrom, List.splitOn_cons_eq_if_modifyHead]
      by_cases same : first = '\n'
      · subst same
        have whole : (text.splitOn '\n').modifyHead (fun piece => piece) = text.splitOn '\n' := by
          cases text.splitOn '\n' <;> rfl
        simp [ih, returns, whole]
      · have grown : ((text.splitOn '\n').modifyHead (first :: ·)).modifyHead (line ++ ·)
            = (text.splitOn '\n').modifyHead (line ++ [first] ++ ·) := by
          cases text.splitOn '\n' <;> simp
        simp only [same, if_false, beq_iff_eq]
        rw [ih, grown]

theorem flatMap_lines {β : Type} {f : Text → List β} (empty : f [] = [])
    (returns : ∀ line, f (stripReturn line) = f line) (text : Text)
    : (lines text).flatMap f = (text.splitOn '\n').flatMap f := by
  have whole : (text.splitOn '\n').modifyHead ([] ++ ·) = text.splitOn '\n' := by
    cases text.splitOn '\n' <;> rfl
  rw [lines, flatMap_linesFrom empty returns, whole]

end Library
