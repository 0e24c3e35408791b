import Emwin.Library.Words

/-! Words at the front of joined words. -/

namespace Library

/-- Words at the front of others, the last of them at the front of a word. -/
def StartsWith : List Text → List Text → Prop
  | [], _ => True
  | _ :: _, [] => False
  | [literal], word :: _ => literal <+: word
  | literal :: second :: literals, word :: words =>
      literal = word ∧ StartsWith (second :: literals) words

instance decidableStartsWith : ∀ literals words, Decidable (StartsWith literals words)
  | [], _ => inferInstanceAs (Decidable True)
  | _ :: _, [] => inferInstanceAs (Decidable False)
  | [literal], word :: _ => inferInstanceAs (Decidable (literal <+: word))
  | literal :: second :: literals, word :: words =>
      have := decidableStartsWith (second :: literals) words
      inferInstanceAs (Decidable (literal = word ∧ StartsWith (second :: literals) words))

section Marks

variable {mark : Char}

/-- What has no mark ends in front of the first one, by induction on it. -/
theorem prefix_append_cons_iff {literal word : Text} (free : mark ∉ literal) (rest : Text)
    : literal <+: word ++ mark :: rest ↔ literal <+: word := by
  induction literal generalizing word with
  | nil => simp
  | cons d literal ih =>
      cases word with
      | nil =>
          have other : d ≠ mark := fun same => free (by simp [same])
          simp [List.cons_prefix_cons, other]
      | cons c word =>
          have later := @ih word fun inside => free (by simp [inside])
          simp only [List.cons_append, List.cons_prefix_cons, later]

/-- First marks meet, by induction on what stands in front of them. -/
theorem append_cons_prefix_iff {literal word more rest : Text} (freeLiteral : mark ∉ literal)
    (free : mark ∉ word)
    : literal ++ mark :: more <+: word ++ mark :: rest ↔ literal = word ∧ more <+: rest := by
  induction literal generalizing word with
  | nil =>
      cases word with
      | nil => simp [List.cons_prefix_cons]
      | cons c word =>
          have other : mark ≠ c := fun same => free (by simp [← same])
          simp [List.cons_prefix_cons, other]
  | cons d literal ih =>
      cases word with
      | nil =>
          have other : d ≠ mark := fun same => freeLiteral (by simp [same])
          simp [List.cons_prefix_cons, other]
      | cons c word =>
          have later := @ih word (by simp_all) (by simp_all)
          simp only [List.cons_append, List.cons_prefix_cons, later, List.cons.injEq]
          tauto

end Marks

/-- Joined words at the front of joined words, by induction on them. -/
theorem joinWords_prefix_iff {literals words : List Text}
    (solidLiterals : ∀ literal ∈ literals, literal ≠ [] ∧ ' ' ∉ literal)
    (solid : ∀ word ∈ words, ' ' ∉ word)
    : joinWords literals <+: joinWords words ↔ StartsWith literals words := by
  induction literals generalizing words with
  | nil => simp [joinWords, StartsWith]
  | cons literal literals ih =>
      obtain ⟨some, solidLiteral⟩ := solidLiterals literal (by simp)
      cases words with
      | nil =>
          have front : literal <+: joinWords (literal :: literals) := prefix_joinWords _ _
          simp only [joinWords, List.intercalate_nil, List.prefix_nil, StartsWith, iff_false]
          intro empty
          rw [joinWords, empty] at front
          exact some (List.prefix_nil.mp front)
      | cons word words =>
          have solidWord := solid word (by simp)
          cases literals with
          | nil =>
              cases words with
              | nil => simp [joinWords, StartsWith]
              | cons next words =>
                  rw [joinWords_cons_cons, joinWords, List.intercalate_singleton,
                    prefix_append_cons_iff solidLiteral]
                  rfl
          | cons second literals =>
              have later := @ih words
                (fun literal member => solidLiterals literal (by simp [member]))
                fun word member => solid word (by simp [member])
              cases words with
              | nil =>
                  rw [joinWords_cons_cons, joinWords, joinWords, List.intercalate_singleton]
                  simp only [StartsWith, and_false, iff_false]
                  intro front
                  have inside : ' ' ∈ word := front.subset (by simp)
                  exact solidWord inside
              | cons next words =>
                  rw [joinWords_cons_cons, joinWords_cons_cons,
                    append_cons_prefix_iff solidLiteral solidWord, later]
                  rfl

end Library
