import Emwin.Library.Spans

/-! Words of visible characters, joined by blanks. -/

namespace Library

/-- Some characters, none of them a blank. -/
structure IsWord (word : Text) : Prop where
  nonempty : word ≠ []
  visible : ∀ c ∈ word, isWhitespace c = false

instance (word : Text) : Decidable (IsWord word) :=
  decidable_of_iff (word ≠ [] ∧ ∀ c ∈ word, isWhitespace c = false)
    ⟨fun ⟨nonempty, visible⟩ => ⟨nonempty, visible⟩,
      fun ⟨nonempty, visible⟩ => ⟨nonempty, visible⟩⟩

/-- Words with a blank between them. -/
def joinWords (words : List Text) : Text := [' '].intercalate words

theorem joinWords_cons_cons (first second : Text) (rest : List Text)
    : joinWords (first :: second :: rest) = first ++ ' ' :: joinWords (second :: rest) := by
  simp [joinWords, List.intercalate_cons_cons]

theorem isWhitespace_of_isDigit {c : Char} (digit : c.isDigit = true)
    : isWhitespace c = false := by
  have bounds := bounds_of_isDigit digit
  exact isWhitespace_eq_false (by omega) (by omega)

theorem isWhitespace_of_isAlphanum {c : Char} (shown : c.isAlphanum = true)
    : isWhitespace c = false := by
  have bounds := bounds_of_isAlphanum shown
  exact isWhitespace_eq_false (by omega) (by omega)

theorem isWord_of_digits {word : Text} (nonempty : word ≠ []) (digits : word.all Char.isDigit)
    : IsWord word where
  nonempty := nonempty
  visible c member := isWhitespace_of_isDigit (List.all_eq_true.mp digits c member)

/-- Nothing is trimmed between two visible ends. -/
theorem trim_eq_self {text : Text} (starts : ∀ c ∈ text.head?, isWhitespace c = false)
    (ends : ∀ c ∈ text.getLast?, isWhitespace c = false)
    : trim text = text := by
  have kept : text.dropWhile isWhitespace = text := by
    cases text with
    | nil => rfl
    | cons c text => exact List.dropWhile_cons_of_neg (by simp [starts c (by simp)])
  rw [trim, kept, trimEndWhile]
  cases reversed : text.reverse with
  | nil => simpa using reversed.symm
  | cons last rest =>
      have shown : isWhitespace last = false := by
        refine ends last ?_
        rw [List.getLast?_eq_head?_reverse, reversed]
        rfl
      rw [List.dropWhile_cons_of_neg (by simp [shown]), ← reversed, List.reverse_reverse]

/-- A trimmed text starts with a visible character. -/
theorem head?_trim (text : Text) : ∀ c ∈ (trim text).head?, isWhitespace c = false := by
  intro c starts
  obtain ⟨blanks, split, -⟩ := exists_trimEnd_append (text.dropWhile isWhitespace)
  have kept := List.head?_dropWhile_not isWhitespace text
  have front : (text.dropWhile isWhitespace).head? = some c := by
    rw [split, List.head?_append]
    have same : (trimEnd (text.dropWhile isWhitespace)).head? = some c := starts
    rw [same]
    rfl
  simpa [front] using kept

theorem IsWord.trim_eq {word : Text} (isWord : IsWord word) : trim word = word :=
  trim_eq_self (fun c member => isWord.visible c (List.mem_of_head? member))
    fun c member => isWord.visible c (List.mem_of_getLast? member)

section Joined

variable {words : List Text} (areWords : ∀ word ∈ words, IsWord word)
include areWords

/-- Joined words come apart again, by induction on the words. -/
theorem splitWhitespace_joinWords : splitWhitespace (joinWords words) = words := by
  induction words with
  | nil => rfl
  | cons first rest ih =>
      have here := areWords first (by simp)
      have later := ih fun word member => areWords word (by simp [member])
      cases rest with
      | nil =>
          rw [joinWords, List.intercalate_singleton, splitWhitespace,
            List.splitOnP_eq_singleton here.visible]
          simp [here.nonempty]
      | cons second rest =>
          rw [splitWhitespace] at later ⊢
          rw [joinWords_cons_cons, List.splitOnP_append_cons_of_forall_mem here.visible ' ' rfl,
            List.filter_cons_of_pos (by simpa using here.nonempty), later]

omit areWords in
theorem joinWords_ne_nil {first : Text} (isWord : IsWord first) (rest : List Text)
    : joinWords (first :: rest) ≠ [] := by
  cases rest with
  | nil => simpa [joinWords] using isWord.nonempty
  | cons second rest => simp [joinWords_cons_cons]

/-- Joined words end as the last of them does, by induction on the words. -/
theorem getLast?_joinWords : ∀ c ∈ (joinWords words).getLast?, isWhitespace c = false := by
  induction words with
  | nil => nofun
  | cons first rest ih =>
      cases rest with
      | nil =>
          intro c last
          rw [joinWords, List.intercalate_singleton] at last
          exact (areWords first (by simp)).visible c (List.mem_of_getLast? last)
      | cons second rest =>
          have later := ih fun word member => areWords word (by simp [member])
          have more := joinWords_ne_nil (areWords second (by simp)) rest
          intro c last
          rw [joinWords_cons_cons, List.getLast?_append_of_ne_nil _ (by simp),
            List.getLast?_cons_of_ne_nil more] at last
          exact later c last

theorem trim_joinWords : trim (joinWords words) = joinWords words := by
  refine trim_eq_self ?_ (getLast?_joinWords areWords)
  cases words with
  | nil => nofun
  | cons first rest =>
      have here := areWords first (by simp)
      obtain ⟨c, more, rfl⟩ := List.exists_cons_of_ne_nil here.nonempty
      have shown : isWhitespace c = false := here.visible c (by simp)
      cases rest with
      | nil => simpa [joinWords] using shown
      | cons second rest => simpa [joinWords_cons_cons] using shown

/-- Joined words are one line. -/
theorem lines_joinWords (some : words ≠ []) : lines (joinWords words) = [joinWords words] := by
  have plain : '\n' ∉ joinWords words := by
    refine not_mem_joined (by decide) fun word member inside => ?_
    exact absurd ((areWords word member).visible '\n' inside) (by decide)
  refine linesFrom_last plain ?_
  obtain ⟨first, rest, rfl⟩ := List.exists_cons_of_ne_nil some
  exact joinWords_ne_nil (areWords first (by simp)) rest

end Joined

/-- Joined words start with the first of them. -/
theorem prefix_joinWords (first : Text) (rest : List Text)
    : first <+: joinWords (first :: rest) := by
  cases rest with
  | nil => simp [joinWords]
  | cons second rest => exact ⟨_, (joinWords_cons_cons first second rest).symm⟩

end Library
