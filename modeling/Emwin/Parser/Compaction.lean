import Emwin.Library.Tokens
import Emwin.Parser.Support

/-! Text with its whitespace compacted, as the readers of collectives see it. -/

namespace Emwin.Parser
open Library

/-- One character more; whitespace is held back until another character comes. -/
def pushCompacted : Text × Bool → Char → Text × Bool
  | (compacted, pendingSpace), ch =>
      if isAsciiWhitespace ch then (compacted, true)
      else if pendingSpace ∧ compacted ≠ [] then (compacted ++ [' ', ch], false)
      else (compacted ++ [ch], false)

/-- Whitespace compacted, none at the ends. -/
def compactAsciiWhitespace (text : Text) : Text := (text.foldl pushCompacted ([], false)).1

/-- A text with words behind it. -/
def extendWords (text : Text) (words : List Text) : Text :=
  if text = [] then joinWords words else text ++ words.flatMap (' ' :: ·)

theorem joinWords_cons (first : Text) (words : List Text)
    : joinWords (first :: words) = first ++ words.flatMap (' ' :: ·) := by
  induction words generalizing first with
  | nil => simp [joinWords]
  | cons second words ih => rw [joinWords_cons_cons, ih, List.flatMap_cons, List.cons_append]

theorem extendWords_nil_cons (word : Text) (words : List Text)
    : extendWords [] (word :: words) = word ++ words.flatMap (' ' :: ·) := by
  rw [extendWords, if_pos rfl, joinWords_cons]

theorem extendWords_of_ne_nil {text : Text} (some : text ≠ []) (words : List Text)
    : extendWords text words = text ++ words.flatMap (' ' :: ·) := if_neg some

/-- What comes behind a blank, and what goes on with the text in front of it, by induction on
what is still to come.
-/
theorem foldl_pushCompacted (text compacted : Text)
    : (text.foldl pushCompacted (compacted, true)).1
        = extendWords compacted (tokens isAsciiWhitespace text)
      ∧ ∀ first others,
          text.splitOnP isAsciiWhitespace = first :: others
          → (text.foldl pushCompacted (compacted, false)).1
            = extendWords (compacted ++ first) (others.filter (· ≠ [])) := by
  induction text generalizing compacted with
  | nil =>
      constructor
      · by_cases empty : compacted = []
        · subst empty
          rfl
        · simp [extendWords, empty]
      · intro first others split
        obtain ⟨rfl, rfl⟩ : [] = first ∧ [] = others := by
          simpa [List.splitOnP_nil] using split
        by_cases empty : compacted = []
        · subst empty
          rfl
        · simp [extendWords, empty]
  | cons c text ih =>
      obtain ⟨first, others, split, splitMore⟩ := exists_splitOnP_cons isAsciiWhitespace c text
      have tokensMore : tokens isAsciiWhitespace text = (first :: others).filter (· ≠ []) := by
        rw [tokens, split]
      by_cases blank : isAsciiWhitespace c = true
      · rw [if_pos blank] at splitMore
        have stepBlank (pending : Bool)
            : pushCompacted (compacted, pending) c = (compacted, true) := by
          simp [pushCompacted, blank]
        constructor
        · rw [List.foldl_cons, stepBlank, (ih compacted).1, tokensMore, tokens, splitMore]
          simp
        · intro first' others' split'
          obtain ⟨rfl, rfl⟩ : [] = first' ∧ first :: others = others' := by
            simpa [splitMore] using split'
          rw [List.foldl_cons, stepBlank, (ih compacted).1, List.append_nil, tokensMore]
      · rw [if_neg blank] at splitMore
        have goesOn (compacted : Text)
            : (text.foldl pushCompacted (compacted ++ [c], false)).1
              = compacted ++ c :: first ++ (others.filter (· ≠ [])).flatMap (' ' :: ·) := by
          rw [(ih (compacted ++ [c])).2 first others split, extendWords_of_ne_nil (by simp)]
          simp
        have tokensHere : tokens isAsciiWhitespace (c :: text)
            = (c :: first) :: others.filter (· ≠ []) := by
          rw [tokens, splitMore]
          simp
        constructor
        · rw [List.foldl_cons, tokensHere]
          by_cases empty : compacted = []
          · subst empty
            have step : pushCompacted ([], true) c = ([] ++ [c], false) := by
              simp [pushCompacted, blank]
            rw [step, goesOn, extendWords_nil_cons, List.nil_append]
          · have step : pushCompacted (compacted, true) c
                = (compacted ++ [' '] ++ [c], false) := by
              simp [pushCompacted, blank, empty]
            rw [step, goesOn, extendWords_of_ne_nil empty]
            simp
        · intro first' others' split'
          obtain ⟨rfl, rfl⟩ : c :: first = first' ∧ others = others' := by
            simpa [splitMore] using split'
          have step : pushCompacted (compacted, false) c = (compacted ++ [c], false) := by
            simp [pushCompacted, blank]
          rw [List.foldl_cons, step, goesOn, extendWords_of_ne_nil (by simp)]

/-- Compaction leaves the words with one blank between them. -/
theorem compactAsciiWhitespace_eq (text : Text)
    : compactAsciiWhitespace text = joinWords (tokens isAsciiWhitespace text) := by
  obtain ⟨first, others, split⟩ :=
    List.exists_cons_of_ne_nil (List.splitOnP_ne_nil isAsciiWhitespace text)
  rw [compactAsciiWhitespace, (foldl_pushCompacted text []).2 first others split, tokens, split,
    List.nil_append]
  by_cases empty : first = []
  · simp [extendWords, empty]
  · rw [extendWords_of_ne_nil empty, List.filter_cons_of_pos (by simpa using empty),
      joinWords_cons]

-----------------------------------------------------------------------------------------
-- Pieces of compacted text
-----------------------------------------------------------------------------------------

/-- The words of the pieces between separators. -/
def piecewise (separates : Char → Bool) (text : Text) : List (List Text) :=
  (text.splitOnP separates).map (tokens isAsciiWhitespace)

section Pieces

variable {separates : Char → Bool} (apart : ∀ c, isAsciiWhitespace c = true → separates c = false)
include apart

/-- Whitespace in the middle ends a word and nothing else. -/
theorem exists_piecewise_gap (left right : Text)
    : ∃ front last first others,
        left.splitOnP separates = front ++ [last]
        ∧ right.splitOnP separates = first :: others
        ∧ ∀ gap, IsGap isAsciiWhitespace gap
          → (left ++ (gap ++ right)).splitOnP separates
            = front ++ (last ++ (gap ++ first)) :: others := by
  obtain ⟨front, last, first, others, splitLeft, splitRight, -⟩ :=
    exists_splitOnP_append separates left right
  refine ⟨front, last, first, others, splitLeft, splitRight, fun gap isGap => ?_⟩
  have solid : ∀ c ∈ gap, separates c = false := fun c member => apart c (isGap c member)
  obtain ⟨front', last', first', others', splitLeft', splitGap, split⟩ :=
    exists_splitOnP_append separates left (gap ++ right)
  obtain ⟨rfl, same⟩ := List.append_inj' (splitLeft.symm.trans splitLeft') rfl
  obtain rfl : last = last' := by simpa using same
  obtain ⟨frontGap, lastGap, firstGap, othersGap, splitGapOnly, splitRight', splitGap'⟩ :=
    exists_splitOnP_append separates gap right
  rw [List.splitOnP_eq_singleton solid] at splitGapOnly
  obtain ⟨rfl, same⟩ := List.append_inj' (show [] ++ [gap] = _ from splitGapOnly) rfl
  obtain rfl : gap = lastGap := by simpa using same
  obtain ⟨rfl, rfl⟩ : first = firstGap ∧ others = othersGap := by
    simpa using splitRight.symm.trans splitRight'
  obtain ⟨rfl, rfl⟩ : gap ++ first = first' ∧ others = others' := by
    simpa using splitGap'.symm.trans splitGap
  exact split

theorem piecewise_gap (left right : Text) {gap other : Text} (isGap : IsGap isAsciiWhitespace gap)
    (isOther : IsGap isAsciiWhitespace other) (some : gap ≠ []) (someOther : other ≠ [])
    : piecewise separates (left ++ (gap ++ right))
      = piecewise separates (left ++ (other ++ right)) := by
  obtain ⟨front, last, first, others, -, -, split⟩ := exists_piecewise_gap apart left right
  have middle {gap : Text} (isGap : IsGap isAsciiWhitespace gap) (some : gap ≠ [])
      : tokens isAsciiWhitespace (last ++ (gap ++ first))
        = tokens isAsciiWhitespace last ++ tokens isAsciiWhitespace first := by
    obtain ⟨c, gap, rfl⟩ := List.exists_cons_of_ne_nil some
    rw [List.cons_append, tokens_append_cons last (isGap c (by simp)),
      tokens_gap fun d member => isGap d (by simp [member])]
  rw [piecewise, piecewise, split gap isGap, split other isOther, List.map_append,
    List.map_append, List.map_cons, List.map_cons, middle isGap some, middle isOther someOther]

theorem piecewise_gap_append {gap : Text} (isGap : IsGap isAsciiWhitespace gap) (right : Text)
    : piecewise separates (gap ++ right) = piecewise separates right := by
  obtain ⟨front, last, first, others, splitNil, splitRight, split⟩ :=
    exists_piecewise_gap apart [] right
  obtain ⟨rfl, same⟩ := List.append_inj'
    (show [] ++ [[]] = front ++ [last] from (List.splitOnP_nil.symm.trans splitNil)) rfl
  obtain rfl : [] = last := by simpa using same
  have whole := split gap isGap
  rw [List.nil_append] at whole
  rw [piecewise, piecewise, whole, splitRight, List.nil_append, List.nil_append, List.map_cons,
    List.map_cons, tokens_gap isGap]

theorem piecewise_append_gap (left : Text) {gap : Text} (isGap : IsGap isAsciiWhitespace gap)
    : piecewise separates (left ++ gap) = piecewise separates left := by
  obtain ⟨front, last, first, others, splitLeft, splitNil, split⟩ :=
    exists_piecewise_gap apart left []
  obtain ⟨rfl, rfl⟩ : [] = first ∧ [] = others := by
    simpa using List.splitOnP_nil.symm.trans splitNil
  have whole := split gap isGap
  rw [List.append_nil] at whole
  rw [piecewise, piecewise, whole, splitLeft, List.map_append, List.map_append, List.map_cons,
    List.map_cons, tokens_append_gap last isGap]

/-- What is compacted is still to come behind the blank that is held back, by induction on it. -/
theorem piecewise_foldl_pushCompacted (text compacted : Text) (pendingSpace : Bool)
    : piecewise separates (text.foldl pushCompacted (compacted, pendingSpace)).1
      = piecewise separates (compacted ++ ((if pendingSpace then [' '] else []) ++ text)) := by
  have blank : IsGap isAsciiWhitespace [' '] := by decide
  induction text generalizing compacted pendingSpace with
  | nil =>
      cases pendingSpace with
      | false => simp
      | true => exact (piecewise_append_gap apart compacted blank).symm
  | cons c text ih =>
      rw [List.foldl_cons]
      by_cases isBlank : isAsciiWhitespace c = true
      · have step : pushCompacted (compacted, pendingSpace) c = (compacted, true) := by
          simp [pushCompacted, isBlank]
        have here : IsGap isAsciiWhitespace ((if pendingSpace then [' '] else []) ++ [c]) := by
          intro d member
          cases pendingSpace <;> simp at member
          · subst member
            exact isBlank
          · rcases member with rfl | rfl
            · decide
            · exact isBlank
        have same := piecewise_gap apart compacted text blank here (by simp) (by simp)
        rw [step, ih]
        simpa using same
      · by_cases waits : pendingSpace = true ∧ compacted ≠ []
        · have step : pushCompacted (compacted, pendingSpace) c
              = (compacted ++ [' ', c], false) := by
            simp [pushCompacted, isBlank, waits]
          rw [step, ih, waits.1]
          simp
        · have step : pushCompacted (compacted, pendingSpace) c = (compacted ++ [c], false) := by
            simp only [pushCompacted, isBlank, Bool.false_eq_true, if_false, if_neg waits]
          rw [step, ih]
          cases pendingSpace with
          | false => simp
          | true =>
              obtain rfl : compacted = [] := by simpa using waits
              have leading := piecewise_gap_append apart blank (c :: text)
              simpa using leading.symm

/-- Compaction leaves the words of all pieces. -/
theorem piecewise_compactAsciiWhitespace (text : Text)
    : piecewise separates (compactAsciiWhitespace text) = piecewise separates text := by
  rw [compactAsciiWhitespace, piecewise_foldl_pushCompacted apart]
  simp

end Pieces

end Emwin.Parser
