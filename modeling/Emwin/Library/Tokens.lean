import Emwin.Library.Words

/-! Tokens between separators, however many of these stand between them. -/

namespace Library

/-- The pieces between separators that are not empty. -/
def tokens (separates : Char → Bool) (text : Text) : List Text :=
  (text.splitOnP separates).filter (· ≠ [])

theorem splitWhitespace_eq_tokens (text : Text)
    : splitWhitespace text = tokens isWhitespace text := rfl

/-- Some characters, none of them a separator. -/
structure IsToken (separates : Char → Bool) (token : Text) : Prop where
  nonempty : token ≠ []
  solid : ∀ c ∈ token, separates c = false

instance (separates : Char → Bool) (token : Text) : Decidable (IsToken separates token) :=
  decidable_of_iff (token ≠ [] ∧ ∀ c ∈ token, separates c = false)
    ⟨fun ⟨nonempty, solid⟩ => ⟨nonempty, solid⟩, fun ⟨nonempty, solid⟩ => ⟨nonempty, solid⟩⟩

theorem isToken_iff_isWord {token : Text} : IsToken isWhitespace token ↔ IsWord token := by
  constructor
  · rintro ⟨nonempty, solid⟩
    exact ⟨nonempty, solid⟩
  · rintro ⟨nonempty, visible⟩
    exact ⟨nonempty, visible⟩

/-- Separators and nothing else. -/
def IsGap (separates : Char → Bool) (gap : Text) : Prop := ∀ c ∈ gap, separates c = true

instance (separates : Char → Bool) (gap : Text) : Decidable (IsGap separates gap) :=
  inferInstanceAs (Decidable (∀ c ∈ gap, separates c = true))

/-- Tokens with the gap in front of each. -/
def spaced (pieces : List (Text × Text)) : Text :=
  pieces.flatMap fun (gap, token) => gap ++ token

@[simp] theorem spaced_nil : spaced [] = [] := rfl

@[simp] theorem spaced_cons (gap token : Text) (pieces : List (Text × Text))
    : spaced ((gap, token) :: pieces) = gap ++ (token ++ spaced pieces) := by
  simp [spaced]

theorem spaced_append (left right : List (Text × Text))
    : spaced (left ++ right) = spaced left ++ spaced right := by
  simp [spaced]

/-- A token behind a gap that is not empty. -/
structure IsSpaced (separates : Char → Bool) (piece : Text × Text) : Prop where
  apart : piece.1 ≠ []
  gap : IsGap separates piece.1
  token : IsToken separates piece.2

instance (separates : Char → Bool) (piece : Text × Text)
    : Decidable (IsSpaced separates piece) :=
  decidable_of_iff
    (piece.1 ≠ [] ∧ IsGap separates piece.1 ∧ IsToken separates piece.2)
    ⟨fun ⟨apart, gap, token⟩ => ⟨apart, gap, token⟩,
      fun ⟨apart, gap, token⟩ => ⟨apart, gap, token⟩⟩

section Tokens

variable {separates : Char → Bool}

@[simp] theorem tokens_nil : tokens separates [] = [] := rfl

/-- A gap in front is passed, by induction on it. -/
theorem tokens_gap {gap : Text} (isGap : IsGap separates gap) (rest : Text)
    : tokens separates (gap ++ rest) = tokens separates rest := by
  induction gap with
  | nil => rfl
  | cons c gap ih =>
      have later := ih fun d member => isGap d (by simp [member])
      rw [tokens] at later ⊢
      rw [List.cons_append, List.splitOnP_cons_eq_if_modifyHead, if_pos (isGap c (by simp)),
        List.filter_cons_of_neg (by simp), later]

/-- A gap is no token. -/
theorem tokens_of_gap {gap : Text} (isGap : IsGap separates gap) : tokens separates gap = [] := by
  rw [← List.append_nil gap, tokens_gap isGap]
  rfl

/-- A separator stands between tokens wherever it is. -/
theorem tokens_append_cons (left : Text) {c : Char} (separator : separates c = true) (right : Text)
    : tokens separates (left ++ c :: right) = tokens separates left ++ tokens separates right := by
  rw [tokens, List.splitOnP_append_cons _ _ separator, List.filter_append]
  rfl

theorem tokens_append_gap (text : Text) {gap : Text} (isGap : IsGap separates gap)
    : tokens separates (text ++ gap) = tokens separates text := by
  cases gap with
  | nil => rw [List.append_nil]
  | cons c gap =>
      have more : IsGap separates gap := fun d member => isGap d (by simp [member])
      rw [tokens_append_cons text (isGap c (by simp)), tokens_of_gap more, List.append_nil]

/-- A token ends at a separator, or with the text. -/
theorem tokens_token {token : Text} (isToken : IsToken separates token) {rest : Text}
    (stops : ∀ c ∈ rest.head?, separates c = true)
    : tokens separates (token ++ rest) = token :: tokens separates rest := by
  cases rest with
  | nil =>
      rw [List.append_nil, tokens, List.splitOnP_eq_singleton isToken.solid]
      simp [isToken.nonempty]
  | cons c rest =>
      have separator : separates c = true := stops c (by simp)
      rw [tokens, List.splitOnP_append_cons_of_forall_mem isToken.solid c separator,
        List.filter_cons_of_pos (by simpa using isToken.nonempty), ← tokens]
      have gap : IsGap separates [c] := by simpa [IsGap] using separator
      rw [← tokens_gap gap rest, List.singleton_append]

theorem head?_spaced {pieces : List (Text × Text)} {rest : Text}
    (spacing : ∀ piece ∈ pieces, IsSpaced separates piece)
    (stops : ∀ c ∈ rest.head?, separates c = true)
    : ∀ c ∈ (spaced pieces ++ rest).head?, separates c = true := by
  cases pieces with
  | nil => exact stops
  | cons piece pieces =>
      obtain ⟨gap, token⟩ := piece
      have here := spacing (gap, token) (by simp)
      obtain ⟨first, gap, rfl⟩ := List.exists_cons_of_ne_nil here.apart
      intro c member
      obtain rfl : first = c := by simpa [spaced] using member
      exact here.gap first (by simp)

/-- Spaced tokens come apart again, by induction on them. -/
theorem tokens_spaced_append {pieces : List (Text × Text)} {rest : Text}
    (spacing : ∀ piece ∈ pieces, IsSpaced separates piece)
    (stops : ∀ c ∈ rest.head?, separates c = true)
    : tokens separates (spaced pieces ++ rest)
      = pieces.map Prod.snd ++ tokens separates rest := by
  induction pieces with
  | nil => rfl
  | cons piece pieces ih =>
      obtain ⟨gap, token⟩ := piece
      have here := spacing (gap, token) (by simp)
      have others : ∀ piece ∈ pieces, IsSpaced separates piece :=
        fun piece member => spacing piece (by simp [member])
      rw [spaced_cons, List.append_assoc, List.append_assoc, tokens_gap here.gap,
        tokens_token here.token (head?_spaced others stops), ih others]
      rfl

theorem tokens_spaced {pieces : List (Text × Text)}
    (spacing : ∀ piece ∈ pieces, IsSpaced separates piece)
    : tokens separates (spaced pieces) = pieces.map Prod.snd := by
  have whole := @tokens_spaced_append separates pieces [] spacing nofun
  simpa using whole

/-- Tokens have no separator in them. -/
theorem isToken_of_mem_tokens {text token : Text} (member : token ∈ tokens separates text)
    : IsToken separates token := by
  obtain ⟨piece, some⟩ := List.mem_filter.mp member
  refine ⟨by simpa using some, ?_⟩
  clear member some
  induction text generalizing token with
  | nil =>
      obtain rfl : token = [] := by simpa using piece
      nofun
  | cons c text ih =>
      rw [List.splitOnP_cons_eq_if_modifyHead] at piece
      split at piece
      · rcases List.mem_cons.mp piece with rfl | later
        · nofun
        · exact ih later
      · next solid =>
          generalize split : text.splitOnP separates = pieces at piece ih
          cases pieces with
          | nil => cases piece
          | cons first pieces =>
              rcases List.mem_cons.mp piece with rfl | later
              · intro d member
                rcases List.mem_cons.mp member with rfl | member
                · simpa using solid
                · exact ih (by simp) d member
              · exact ih (by simp [later])

/-- The tokens of a text are its characters without the separators, by text induction. -/
theorem flatten_tokens (text : Text)
    : (tokens separates text).flatten = text.filter fun c => !separates c := by
  have keeps (pieces : List Text) : (pieces.filter (· ≠ [])).flatten = pieces.flatten := by
    induction pieces with
    | nil => rfl
    | cons piece pieces ih => cases piece <;> simp_all
  rw [tokens, keeps]
  induction text with
  | nil => simp
  | cons c text ih =>
      rw [List.splitOnP_cons_eq_if_modifyHead]
      split
      · next separator => simp [separator, ih]
      · next solid =>
          cases split : text.splitOnP separates with
          | nil => exact absurd split (List.splitOnP_ne_nil _ _)
          | cons first pieces =>
              rw [split] at ih
              simp only [List.flatten_cons] at ih
              simp [solid, ih]

/-- What stands in a token is what is no separator. -/
theorem exists_mem_tokens_iff {text : Text} {c : Char}
    : (∃ token ∈ tokens separates text, c ∈ token) ↔ c ∈ text ∧ separates c = false := by
  rw [← List.mem_flatten, flatten_tokens, List.mem_filter]
  simp

/-- The pieces in front of and behind one character more. -/
theorem exists_splitOnP_cons (separates : Char → Bool) (c : Char) (text : Text)
    : ∃ first others,
        text.splitOnP separates = first :: others
        ∧ (c :: text).splitOnP separates
          = if separates c then [] :: first :: others else (c :: first) :: others := by
  obtain ⟨first, others, split⟩ :=
    List.exists_cons_of_ne_nil (List.splitOnP_ne_nil separates text)
  refine ⟨first, others, split, ?_⟩
  rw [List.splitOnP_cons_eq_if_modifyHead, split]
  rfl

/-- Pieces have nothing but what the text has, by text induction. -/
theorem mem_of_mem_splitOnP {text piece : Text} (among : piece ∈ text.splitOnP separates)
    {c : Char} (member : c ∈ piece)
    : c ∈ text := by
  induction text generalizing piece with
  | nil =>
      obtain rfl : piece = [] := by simpa [List.splitOnP_nil] using among
      exact member
  | cons d text ih =>
      obtain ⟨first, others, split, splitMore⟩ := exists_splitOnP_cons separates d text
      rw [split] at ih
      rw [splitMore] at among
      split at among
      · rcases List.mem_cons.mp among with rfl | among
        · cases member
        · exact List.mem_cons_of_mem d (ih among member)
      · rcases List.mem_cons.mp among with rfl | among
        · rcases List.mem_cons.mp member with rfl | member
          · exact List.mem_cons_self
          · exact List.mem_cons_of_mem d (ih List.mem_cons_self member)
        · exact List.mem_cons_of_mem d (ih (List.mem_cons_of_mem first among) member)

/-- The last piece of a text goes on with the first piece of what comes behind it, by induction
on the text.
-/
theorem exists_splitOnP_append (separates : Char → Bool) (left right : Text)
    : ∃ front last first others,
        left.splitOnP separates = front ++ [last]
        ∧ right.splitOnP separates = first :: others
        ∧ (left ++ right).splitOnP separates = front ++ (last ++ first) :: others := by
  induction left with
  | nil =>
      obtain ⟨first, others, split⟩ :=
        List.exists_cons_of_ne_nil (List.splitOnP_ne_nil separates right)
      exact ⟨[], [], first, others, List.splitOnP_nil, split, split⟩
  | cons c left ih =>
      obtain ⟨front, last, first, others, splitLeft, splitRight, split⟩ := ih
      rw [List.cons_append, List.splitOnP_cons_eq_if_modifyHead,
        List.splitOnP_cons_eq_if_modifyHead, splitLeft, split]
      by_cases separator : separates c = true
      · rw [if_pos separator, if_pos separator]
        exact ⟨[] :: front, last, first, others, rfl, splitRight, rfl⟩
      · rw [if_neg separator, if_neg separator]
        cases front with
        | nil => exact ⟨[], c :: last, first, others, rfl, splitRight, rfl⟩
        | cons piece front =>
            exact ⟨(c :: piece) :: front, last, first, others, rfl, splitRight, rfl⟩

theorem tokens_append_of_splitOnP {left right piece first : Text} {shown others : List Text}
    (splitLeft : left.splitOnP separates = shown ++ [piece]) (nonempty : piece ≠ [])
    (splitRight : right.splitOnP separates = first :: others)
    : tokens separates (left ++ right)
      = shown.filter (· ≠ []) ++ (piece ++ first) :: others.filter (· ≠ []) := by
  obtain ⟨front, last, first', others', splitLeft', splitRight', split⟩ :=
    exists_splitOnP_append separates left right
  obtain ⟨rfl, same⟩ := List.append_inj' (splitLeft.symm.trans splitLeft') rfl
  obtain rfl : piece = last := by simpa using same
  obtain ⟨rfl, rfl⟩ : first = first' ∧ others = others' := by
    simpa using splitRight.symm.trans splitRight'
  rw [tokens, split, List.filter_append, List.filter_cons_of_pos (by simp [nonempty])]

/-- What comes right behind a text is glued to the last of its tokens. -/
theorem tokens_append_of_visible {left : Text} {front : List Text} {last : Text}
    (split : tokens separates left = front ++ [last])
    (visible : ∀ c ∈ left.getLast?, separates c = false) (right : Text)
    : tokens separates (left ++ right) = front ++ tokens separates (last ++ right) := by
  rcases List.eq_nil_or_concat left with rfl | ⟨init, c, rfl⟩
  · simp at split
  rw [List.concat_eq_append] at *
  have solid : separates c = false := visible c (by simp)
  obtain ⟨pieces, piece, first, others, splitInit, splitC, splitLeft⟩ :=
    exists_splitOnP_append separates init [c]
  obtain ⟨rfl, rfl⟩ : [c] = first ∧ [] = others := by
    rw [List.splitOnP_eq_singleton (by simpa using solid)] at splitC
    simpa using splitC
  have tokensLeft : tokens separates (init ++ [c])
      = pieces.filter (· ≠ []) ++ [piece ++ [c]] := by
    rw [tokens, splitLeft, List.filter_append, List.filter_cons_of_pos (by simp)]
    rfl
  obtain ⟨rfl, same⟩ := List.append_inj' (split.symm.trans tokensLeft) rfl
  obtain rfl : last = piece ++ [c] := by simpa using same
  have isToken : IsToken separates (piece ++ [c]) :=
    @isToken_of_mem_tokens separates (init ++ [c]) _ (by simp [split])
  obtain ⟨first, others, splitRight⟩ :=
    List.exists_cons_of_ne_nil (List.splitOnP_ne_nil separates right)
  have alone := List.splitOnP_eq_singleton isToken.solid
  rw [tokens_append_of_splitOnP splitLeft (by simp) splitRight,
    @tokens_append_of_splitOnP separates _ _ _ _ [] _ alone (by simp) splitRight]
  rfl

/-- Pieces of pieces, by text induction. -/
theorem flatMap_splitOnP {finer : Char → Bool}
    (refines : ∀ c, separates c = true → finer c = true) (text : Text)
    : (text.splitOnP separates).flatMap (·.splitOnP finer) = text.splitOnP finer := by
  induction text with
  | nil => rfl
  | cons c text ih =>
      obtain ⟨first, others, split, splitMore⟩ := exists_splitOnP_cons separates c text
      rw [split, List.flatMap_cons] at ih
      rw [splitMore, List.splitOnP_cons_eq_if_modifyHead]
      by_cases separator : separates c = true
      · rw [if_pos separator, if_pos (refines c separator), List.flatMap_cons, List.flatMap_cons,
          ih]
        rfl
      · rw [if_neg separator, List.flatMap_cons, List.splitOnP_cons_eq_if_modifyHead, ← ih]
        obtain ⟨piece, pieces, splitFirst⟩ :=
          List.exists_cons_of_ne_nil (List.splitOnP_ne_nil finer first)
        by_cases fine : finer c = true
        · rw [if_pos fine, if_pos fine, List.cons_append]
        · rw [if_neg fine, if_neg fine, splitFirst]
          rfl

/-- Tokens of tokens are the tokens of the text. -/
theorem flatMap_tokens {finer : Char → Bool}
    (refines : ∀ c, separates c = true → finer c = true) (text : Text)
    : (tokens separates text).flatMap (tokens finer) = tokens finer text := by
  have skips (pieces : List Text)
      : (pieces.filter (· ≠ [])).flatMap (tokens finer) = pieces.flatMap (tokens finer) := by
    induction pieces with
    | nil => rfl
    | cons piece pieces ih => cases piece <;> simp_all
  have filtered (pieces : List Text)
      : pieces.flatMap (tokens finer)
        = (pieces.flatMap (·.splitOnP finer)).filter (· ≠ []) := by
    induction pieces with
    | nil => rfl
    | cons piece pieces ih =>
        rw [List.flatMap_cons, List.flatMap_cons, List.filter_append, ← ih]
        rfl
  rw [tokens, skips, filtered, flatMap_splitOnP refines]
  rfl

end Tokens

theorem IsWord.splitWhitespace_eq {word : Text} (isWord : IsWord word)
    : splitWhitespace word = [word] := by
  have whole := @tokens_token isWhitespace word (isToken_iff_isWord.mpr isWord) [] nofun
  simpa [splitWhitespace_eq_tokens] using whole

/-- Words are split no further. -/
theorem flatMap_splitWhitespace {words : List Text} (areWords : ∀ word ∈ words, IsWord word)
    : words.flatMap splitWhitespace = words := by
  induction words with
  | nil => rfl
  | cons word words ih =>
      rw [List.flatMap_cons, (areWords word (by simp)).splitWhitespace_eq,
        ih fun other member => areWords other (by simp [member])]
      rfl

theorem splitWhitespace_trim (text : Text)
    : splitWhitespace (trim text) = splitWhitespace text := by
  obtain ⟨front, back, split, frontBlank, backBlank⟩ := exists_trim_append text
  rw [splitWhitespace_eq_tokens, splitWhitespace_eq_tokens]
  conv_rhs => rw [split]
  rw [List.append_assoc, tokens_gap frontBlank, tokens_append_gap _ backBlank]

/-- Joined texts have the words of each, by induction on them. -/
theorem splitWhitespace_joinWords_eq_flatMap (texts : List Text)
    : splitWhitespace (joinWords texts) = texts.flatMap splitWhitespace := by
  induction texts with
  | nil => rfl
  | cons first texts ih =>
      cases texts with
      | nil => simp [joinWords]
      | cons second texts =>
          rw [joinWords_cons_cons, List.flatMap_cons, ← ih]
          exact tokens_append_cons first (by decide) _

-----------------------------------------------------------------------------------------
-- Joined lines
-----------------------------------------------------------------------------------------

instance (line : Text) : Decidable (Plain line) := inferInstanceAs (Decidable (_ ∧ _))

theorem plain_nil : Plain [] := ⟨nofun, nofun⟩

theorem plain_append {left right : Text} (plain : Plain left) (rightPlain : Plain right)
    : Plain (left ++ right) := by
  simp only [Plain, List.mem_append, not_or]
  exact ⟨⟨plain.1, rightPlain.1⟩, plain.2, rightPlain.2⟩

theorem plain_of_visible {text : Text} (visible : ∀ c ∈ text, isWhitespace c = false)
    : Plain text :=
  ⟨fun member => absurd (visible _ member) (by decide),
    fun member => absurd (visible _ member) (by decide)⟩

theorem plain_replicate (count : Nat) : Plain (List.replicate count ' ') := by
  constructor <;> exact fun member => absurd (List.mem_replicate.mp member).2 (by decide)

theorem plain_spaced {pieces : List (Text × Text)}
    (plain : ∀ piece ∈ pieces, Plain piece.1 ∧ Plain piece.2)
    : Plain (spaced pieces) := by
  induction pieces with
  | nil => exact plain_nil
  | cons piece pieces ih =>
      obtain ⟨gap, token⟩ := piece
      obtain ⟨plainGap, plainToken⟩ := plain (gap, token) (by simp)
      have later := ih fun piece member => plain piece (by simp [member])
      rw [spaced_cons]
      exact plain_append plainGap (plain_append plainToken later)

/-- `join("\n")`. -/
def joinLines (list : List Text) : Text := ['\n'].intercalate list

/-- Joined lines are read back, by induction on them. -/
theorem lines_joinLines {list : List Text} (plain : ∀ line ∈ list, Plain line)
    (shown : ∀ last ∈ list.getLast?, last ≠ [])
    : lines (joinLines list) = list := by
  induction list with
  | nil => rfl
  | cons first list ih =>
      cases list with
      | nil =>
          rw [joinLines, List.intercalate_singleton]
          exact linesFrom_last (plain first (by simp)).1 (shown first rfl)
      | cons second list =>
          have later := ih (fun line member => plain line (by simp [member])) (by
            intro last ends
            exact shown last (by rwa [List.getLast?_cons_cons]))
          rw [joinLines] at later ⊢
          rw [List.intercalate_cons_cons, List.append_assoc, List.singleton_append,
            lines_cons (plain first (by simp)), later]

end Library
