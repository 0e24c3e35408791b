import Emwin.Parser.MosAxis

/-! Sections laid out in columns, and the rows of values that keep theirs. -/

namespace Emwin.Parser
open Library

-----------------------------------------------------------------------------------------
-- Cells
-----------------------------------------------------------------------------------------

/-- A value at the right of its column. -/
def renderCell (width : Nat) (value : Text) : Text :=
  List.replicate (width - value.length) ' ' ++ value

def renderCells (cells : List (Nat × Text)) : Text :=
  cells.flatMap fun (width, value) => renderCell width value

@[simp] theorem renderCells_nil : renderCells [] = [] := rfl

@[simp] theorem renderCells_cons (width : Nat) (value : Text) (cells : List (Nat × Text))
    : renderCells ((width, value) :: cells) = renderCell width value ++ renderCells cells := by
  simp [renderCells]

/-- A blank cell, or one with a value that fits its column and has no blanks around it. -/
structure IsCell (cell : Nat × Text) : Prop where
  column : 0 < cell.1
  starts : ∀ c ∈ cell.2.head?, isWhitespace c = false
  ends : ∀ c ∈ cell.2.getLast?, isWhitespace c = false
  plain : Plain cell.2
  fits : cell.2.length ≤ cell.1

/-- Only the first cells have values, each of these is a word, and none touches the value before
it.
-/
structure InFront (cells : List (Nat × Text)) : Prop where
  words : ∀ cell ∈ cells, cell.2 = [] ∨ IsWord cell.2
  chain
    : cells.IsChain fun left right => right.2 ≠ [] → left.2 ≠ [] ∧ right.2.length < right.1

theorem inFront_cons_cons_iff {left right : Nat × Text} {cells : List (Nat × Text)}
    : InFront (left :: right :: cells)
      ↔ (left.2 = [] ∨ IsWord left.2) ∧ (right.2 ≠ [] → left.2 ≠ [] ∧ right.2.length < right.1)
        ∧ InFront (right :: cells) := by
  constructor
  · rintro ⟨words, chain⟩
    rw [List.forall_mem_cons] at words
    rw [List.isChain_cons_cons] at chain
    exact ⟨words.1, chain.1, words.2, chain.2⟩
  · rintro ⟨word, step, words, chain⟩
    exact ⟨List.forall_mem_cons.mpr ⟨word, words⟩, List.isChain_cons_cons.mpr ⟨step, chain⟩⟩

theorem gap_replicate (count : Nat) : IsGap isWhitespace (List.replicate count ' ') := by
  intro c member
  rw [(List.mem_replicate.mp member).2]
  decide

theorem splitWhitespace_renderCell {width : Nat} {rest : Text} (value : Text)
    : splitWhitespace (renderCell width value ++ rest) = splitWhitespace (value ++ rest) := by
  rw [renderCell, List.append_assoc]
  exact tokens_gap (gap_replicate _) _

/-- The words of the cells are all of them blank only if the cells are. -/
theorem splitWhitespace_renderCells_eq_nil {cells : List (Nat × Text)}
    (areCells : ∀ cell ∈ cells, IsCell cell)
    : splitWhitespace (renderCells cells) = [] ↔ ∀ cell ∈ cells, cell.2 = [] := by
  induction cells with
  | nil => simp [splitWhitespace]
  | cons cell cells ih =>
      obtain ⟨width, value⟩ := cell
      have here := areCells (width, value) (by simp)
      rw [renderCells_cons, splitWhitespace_renderCell, List.forall_mem_cons]
      cases value with
      | nil =>
          rw [List.nil_append, ih fun cell member => areCells cell (by simp [member])]
          simp
      | cons c value =>
          have shown := here.starts c rfl
          constructor
          · intro empty
            have solid := congrArg List.flatten empty
            rw [splitWhitespace_eq_tokens, flatten_tokens, List.cons_append,
              List.filter_cons_of_pos (by simp [shown])] at solid
            cases solid
          · rintro ⟨blank, -⟩
            cases blank

/-- The words stand at the places of their cells. -/
def InPlace (cells : List (Nat × Text)) (words : List Text) : Prop :=
  ∀ place word, place < cells.length → words[place]? = some word
    → (cells[place]?).map Prod.snd = some word

theorem inPlace_cons_iff {width : Nat} {value word : Text} {cells : List (Nat × Text)}
    {words : List Text}
    : InPlace ((width, value) :: cells) (word :: words) ↔ value = word ∧ InPlace cells words := by
  constructor
  · intro inPlace
    refine ⟨by simpa using inPlace 0 word (by simp) rfl, fun place other inside found => ?_⟩
    simpa using inPlace (place + 1) other (by simpa using inside) (by simpa using found)
  · rintro ⟨rfl, later⟩ place other inside found
    cases place with
    | zero => simpa using found
    | succ place => simpa using later place other (by simpa using inside) (by simpa using found)

/-- A value right in front of another one runs into it. -/
theorem exists_longer_word {value next rest : Text} (word : IsWord value) (some : next ≠ [])
    (starts : ∀ c ∈ next.head?, isWhitespace c = false)
    : ∃ more words, splitWhitespace (value ++ (next ++ rest)) = more :: words ∧ value ≠ more := by
  obtain ⟨long, after, same, solid, stops⟩ : ∃ long after : Text, next ++ rest = long ++ after
      ∧ IsWord long ∧ ∀ c ∈ after.head?, isWhitespace c = true := by
    refine ⟨(next ++ rest).takeWhile fun c => !isWhitespace c,
      (next ++ rest).dropWhile fun c => !isWhitespace c,
      List.takeWhile_append_dropWhile.symm, ⟨?_, ?_⟩, ?_⟩
    · obtain ⟨c, next, rfl⟩ := List.exists_cons_of_ne_nil some
      rw [List.cons_append, List.takeWhile_cons_of_pos (by simp [starts c rfl])]
      simp
    · intro c member
      simpa using List.all_eq_true.mp List.all_takeWhile c member
    · intro c starts
      have stop := List.head?_dropWhile_not (fun c => !isWhitespace c) (next ++ rest)
      rw [Option.mem_def.mp starts] at stop
      simpa using stop
  refine ⟨value ++ long, splitWhitespace after, ?_, ?_⟩
  · rw [same, ← List.append_assoc]
    refine tokens_token ⟨by simp [word.nonempty], ?_⟩ stops
    intro c member
    exact (List.mem_append.mp member).elim (word.visible c) (solid.visible c)
  · intro alone
    have length := congrArg List.length alone
    rw [List.length_append] at length
    exact solid.nonempty (List.eq_nil_of_length_eq_zero (by omega))

/-- Behind a blank cell every cell has to be blank, by induction on them. -/
theorem inFront_blank_iff {width : Nat} {cells : List (Nat × Text)}
    : InFront ((width, []) :: cells) ↔ ∀ cell ∈ cells, cell.2 = [] := by
  induction cells generalizing width with
  | nil => exact ⟨fun _ => nofun, fun _ => ⟨by simp, .singleton _⟩⟩
  | cons next cells ih =>
      obtain ⟨nextWidth, next⟩ := next
      rw [inFront_cons_cons_iff, List.forall_mem_cons]
      constructor
      · rintro ⟨-, step, later⟩
        obtain rfl : next = [] := by
          by_contra shown
          exact (step shown).1 rfl
        exact ⟨rfl, (@ih nextWidth).mp later⟩
      · rintro ⟨none, later⟩
        obtain rfl : next = [] := none
        exact ⟨.inl rfl, fun shown => absurd rfl shown, (@ih nextWidth).mpr later⟩

/-- A value with room in the cell behind it is a word of its own. -/
theorem splitWhitespace_value {value : Text} {cells : List (Nat × Text)} (word : IsWord value)
    (areCells : ∀ cell ∈ cells, IsCell cell)
    (apart : ∀ next ∈ cells.head?, next.2 ≠ [] → next.2.length < next.1)
    : splitWhitespace (value ++ renderCells cells)
      = value :: splitWhitespace (renderCells cells) := by
  refine tokens_token ⟨word.nonempty, word.visible⟩ ?_
  cases cells with
  | nil => nofun
  | cons next cells =>
      obtain ⟨nextWidth, nextValue⟩ := next
      have room : nextValue.length < nextWidth := by
        by_cases none : nextValue = []
        · rw [none]
          exact (areCells (nextWidth, nextValue) (by simp)).column
        · exact apart (nextWidth, nextValue) rfl none
      obtain ⟨count, more⟩ : ∃ count, nextWidth - nextValue.length = count + 1 :=
        ⟨nextWidth - nextValue.length - 1, by omega⟩
      intro c starts
      rw [renderCells_cons, renderCell, more, List.replicate_succ] at starts
      obtain rfl : ' ' = c := by simpa using starts
      decide

/-- Values that come first and apart are words at the places of their cells, by induction on
these.
-/
theorem getElem?_words {cells : List (Nat × Text)} (areCells : ∀ cell ∈ cells, IsCell cell)
    (inFront : InFront cells) {place : Nat} {width : Nat} {value : Text}
    (printed : cells[place]? = some (width, value)) (shown : value ≠ [])
    : (splitWhitespace (renderCells cells))[place]? = some value := by
  induction cells generalizing place with
  | nil => simp at printed
  | cons cell cells ih =>
      obtain ⟨firstWidth, first⟩ := cell
      have others : ∀ cell ∈ cells, IsCell cell :=
        fun cell member => areCells cell (by simp [member])
      rcases inFront.words (firstWidth, first) (by simp) with blank | word
      · obtain rfl : first = [] := blank
        have none := inFront_blank_iff.mp inFront
        rcases List.mem_cons.mp (List.mem_of_getElem? printed) with same | later
        · exact absurd (congrArg Prod.snd same) shown
        · exact absurd (none _ later) shown
      · have apart : ∀ next ∈ cells.head?, next.2 ≠ [] → next.2.length < next.1 :=
          fun next starts visible => (inFront.chain.rel_head? starts visible).2
        rw [renderCells_cons, splitWhitespace_renderCell, splitWhitespace_value word others apart]
        cases place with
        | zero =>
            have same : (firstWidth, first) = (width, value) := by simpa using printed
            simp [(Prod.mk.inj same).2]
        | succ place =>
            have later : InFront cells :=
              ⟨fun cell member => inFront.words cell (by simp [member]), inFront.chain.tail⟩
            exact ih others later (by simpa using printed)

/-- The words behind a blank cell are out of place. -/
theorem inPlace_blank_iff {width : Nat} {cells : List (Nat × Text)}
    (areCells : ∀ cell ∈ cells, IsCell cell)
    : InPlace ((width, []) :: cells) (splitWhitespace (renderCells cells))
      ↔ InFront ((width, []) :: cells) := by
  rw [inFront_blank_iff, ← splitWhitespace_renderCells_eq_nil areCells]
  constructor
  · intro inPlace
    cases words : splitWhitespace (renderCells cells) with
    | nil => rfl
    | cons word rest =>
        rw [words] at inPlace
        have first := (inPlace_cons_iff.mp inPlace).1
        have shown := @isToken_of_mem_tokens isWhitespace (renderCells cells) word (by
          rw [← splitWhitespace_eq_tokens, words]
          simp)
        exact absurd first.symm shown.nonempty
  · intro none
    rw [none]
    intro place word _ found
    simp at found

/-- A value with blanks inside is no word. -/
theorem not_inPlace_of_not_word {width : Nat} {value rest : Text} {cells : List (Nat × Text)}
    (some : value ≠ []) (starts : ∀ c ∈ value.head?, isWhitespace c = false)
    (noWord : ¬ IsWord value)
    : ¬ InPlace ((width, value) :: cells) (splitWhitespace (value ++ rest)) := by
  intro inPlace
  obtain ⟨c, more, rfl⟩ := List.exists_cons_of_ne_nil some
  have shown := starts c rfl
  cases words : splitWhitespace (c :: more ++ rest) with
  | nil =>
      have solid := congrArg List.flatten words
      rw [splitWhitespace_eq_tokens, flatten_tokens, List.cons_append,
        List.filter_cons_of_pos (by simp [shown])] at solid
      cases solid
  | cons word others =>
      rw [words] at inPlace
      have same := (inPlace_cons_iff.mp inPlace).1
      have token := @isToken_of_mem_tokens isWhitespace (c :: more ++ rest) word (by
        rw [← splitWhitespace_eq_tokens, words]
        simp)
      exact noWord (same ▸ isToken_iff_isWord.mp token)

/-- Read as words, the cells keep their places exactly if the values come first and apart. By
induction on the cells.
-/
theorem inPlace_iff {cells : List (Nat × Text)} (areCells : ∀ cell ∈ cells, IsCell cell)
    : InPlace cells (splitWhitespace (renderCells cells)) ↔ InFront cells := by
  induction cells with
  | nil =>
      refine ⟨fun _ => ⟨nofun, .nil⟩, fun _ place _ inside => ?_⟩
      exact absurd inside (Nat.not_lt_zero _)
  | cons cell cells ih =>
      obtain ⟨width, value⟩ := cell
      have here := areCells (width, value) (by simp)
      have others : ∀ cell ∈ cells, IsCell cell :=
        fun cell member => areCells cell (by simp [member])
      rw [renderCells_cons, splitWhitespace_renderCell]
      by_cases blank : value = []
      · rw [blank, List.nil_append]
        exact inPlace_blank_iff others
      · by_cases word : IsWord value
        · cases cells with
          | nil =>
              rw [splitWhitespace_value word others nofun, inPlace_cons_iff]
              refine ⟨fun _ => ⟨?_, .singleton _⟩, fun _ => ⟨rfl, nofun⟩⟩
              rw [List.forall_mem_singleton]
              exact .inr word
          | cons next cells =>
              obtain ⟨nextWidth, nextValue⟩ := next
              have nextCell := others (nextWidth, nextValue) (by simp)
              rw [inFront_cons_cons_iff]
              by_cases touches : nextValue ≠ [] ∧ nextWidth ≤ nextValue.length
              · have full : renderCell nextWidth nextValue = nextValue := by
                  rw [renderCell, Nat.sub_eq_zero_of_le touches.2]
                  rfl
                obtain ⟨more, words, split, longer⟩ :=
                  @exists_longer_word value nextValue (renderCells cells) word touches.1
                    nextCell.starts
                rw [renderCells_cons, full, split, inPlace_cons_iff]
                constructor
                · exact fun ⟨same, _⟩ => absurd same longer
                · rintro ⟨-, step, -⟩
                  exact absurd (step touches.1).2 (Nat.not_lt.mpr touches.2)
              · have free : nextValue ≠ [] → value ≠ [] ∧ nextValue.length < nextWidth :=
                  fun shown => ⟨blank, Nat.lt_of_not_le fun full => touches ⟨shown, full⟩⟩
                have apart
                    : ∀ cell ∈ ((nextWidth, nextValue) :: cells).head?,
                        cell.2 ≠ [] → cell.2.length < cell.1 := by
                  intro cell starts shown
                  obtain rfl : (nextWidth, nextValue) = cell := by simpa using starts
                  exact (free shown).2
                rw [splitWhitespace_value word others apart, inPlace_cons_iff, ih others]
                exact ⟨fun ⟨_, later⟩ => ⟨.inr word, free, later⟩,
                  fun ⟨_, _, later⟩ => ⟨rfl, later⟩⟩
        · refine ⟨fun inPlace => ?_, fun inFront => ?_⟩
          · exact absurd inPlace (not_inPlace_of_not_word blank here.starts word)
          · rcases inFront.words (width, value) (by simp) with none | isWord
            · exact absurd none blank
            · exact absurd isWord word

end Emwin.Parser
