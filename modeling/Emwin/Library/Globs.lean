import Emwin.Library.Slices
import Mathlib.Data.List.Induction

/-! Patterns with stars. A text is obtained from a pattern by putting some string for each
star; what a star may stand for is a parameter.
-/

namespace Library

/-- `Fills star same may pattern text`: the text comes from the pattern when each star is
replaced by a string that `may` stand there, in front of the rest of the text, and every
other element by the same one.
-/
inductive Fills {α : Type} (star : α) (same : α → α → Prop) (may : List α → List α → Prop)
    : List α → List α → Prop
  | done : Fills star same may [] []
  | keep {element other : α} {pattern text : List α} (plain : element ≠ star)
    (alike : same element other) (later : Fills star same may pattern text)
    : Fills star same may (element :: pattern) (other :: text)
  | fill {pattern text : List α} (filled : List α) (allowed : may filled text)
    (later : Fills star same may pattern text)
    : Fills star same may (star :: pattern) (filled ++ text)

section Meaning

variable {α : Type} {star : α} {same : α → α → Prop} {may : List α → List α → Prop}

/-- More choice for the stars gives more texts, by induction on the filling. -/
theorem Fills.mono {more : List α → List α → Prop} {pattern text : List α}
    (weaker : ∀ filled rest, may filled rest → more filled rest)
    (fills : Fills star same may pattern text)
    : Fills star same more pattern text := by
  induction fills with
  | done => exact .done
  | keep plain alike _ ih => exact .keep plain alike ih
  | fill filled allowed _ ih => exact .fill filled (weaker _ _ allowed) ih

/-- Elements that a function identifies are the same after it, by induction both ways. -/
theorem fills_map_iff {β : Type} {f : α → β} {mayBe : List β → List β → Prop}
    (onlyStar : ∀ element, f element = f star → element = star)
    (alsoMay : ∀ filled rest, may filled rest ↔ mayBe (filled.map f) (rest.map f))
    {pattern text : List α}
    : Fills star (fun left right => f left = f right) may pattern text
      ↔ Fills (f star) Eq mayBe (pattern.map f) (text.map f) := by
  constructor
  · intro fills
    induction fills with
    | done => exact .done
    | keep plain alike _ ih =>
        exact .keep (fun found => plain (onlyStar _ found)) alike ih
    | fill filled allowed _ ih =>
        rw [List.map_append]
        exact .fill _ ((alsoMay _ _).mp allowed) ih
  · intro fills
    generalize mappedPattern : pattern.map f = left, mappedText : text.map f = right at fills
    induction fills generalizing pattern text with
    | done =>
        obtain rfl := List.map_eq_nil_iff.mp mappedPattern
        obtain rfl := List.map_eq_nil_iff.mp mappedText
        exact .done
    | keep plain alike _ ih =>
        obtain ⟨first, pattern, rfl, rfl, rfl⟩ := List.map_eq_cons_iff.mp mappedPattern
        obtain ⟨other, text, rfl, rfl, rfl⟩ := List.map_eq_cons_iff.mp mappedText
        exact .keep (fun found => plain (congrArg f found)) alike (ih rfl rfl)
    | fill filled allowed _ ih =>
        obtain ⟨first, pattern, rfl, isStar, rfl⟩ := List.map_eq_cons_iff.mp mappedPattern
        obtain ⟨front, text, rfl, rfl, rfl⟩ := List.map_eq_append_iff.mp mappedText
        obtain rfl := onlyStar _ isStar
        exact .fill front ((alsoMay _ _).mpr allowed) (ih rfl rfl)

end Meaning

-----------------------------------------------------------------------------------------
-- Stars that meet stars
-----------------------------------------------------------------------------------------

/-- A star that stands in front of a star of the text stands for exactly that star. -/
def OwnStar {α : Type} (star : α) (filled rest : List α) : Prop :=
  filled = [star] ∨ (filled ++ rest).head? ≠ some star

section Own

variable {α : Type} {star : α}

/-- The texts obtained when stars of the text are taken by stars of the pattern. -/
abbrev OwnFills (star : α) : List α → List α → Prop := Fills star Eq (OwnStar star)

theorem ownFills_nil_iff {text : List α} : OwnFills star [] text ↔ text = [] := by
  constructor
  · rintro ⟨⟩
    rfl
  · rintro rfl
    exact .done

theorem ownFills_plain_iff {element : α} {pattern text : List α} (plain : element ≠ star)
    : OwnFills star (element :: pattern) text
      ↔ ∃ rest, text = element :: rest ∧ OwnFills star pattern rest := by
  constructor
  · intro fills
    cases fills with
    | keep _ alike later => exact ⟨_, by rw [alike], later⟩
    | fill => exact absurd rfl plain
  · rintro ⟨rest, rfl, later⟩
    exact .keep plain rfl later

theorem ownFills_star_iff {pattern text : List α}
    : OwnFills star (star :: pattern) (star :: text) ↔ OwnFills star pattern text := by
  constructor
  · intro fills
    generalize whole : star :: text = taken at fills
    cases fills with
    | keep plain => exact absurd rfl plain
    | fill filled allowed later =>
        obtain rfl | other := allowed
        · obtain ⟨-, rfl⟩ := List.cons.inj whole
          exact later
        · rw [← whole] at other
          exact absurd rfl other
  · intro later
    exact @Fills.fill _ _ _ _ _ _ [star] (.inl rfl) later

/-- In front of anything else a star stands for any string. -/
theorem ownFills_free_iff {pattern text : List α} (other : text.head? ≠ some star)
    : OwnFills star (star :: pattern) text
      ↔ ∃ rest, rest <:+ text ∧ OwnFills star pattern rest := by
  constructor
  · intro fills
    cases fills with
    | keep plain => exact absurd rfl plain
    | fill filled allowed later => exact ⟨_, List.suffix_append _ _, later⟩
  · rintro ⟨rest, ⟨filled, rfl⟩, later⟩
    exact .fill filled (.inr other) later

/-- Whatever a star stands for, the rest is matched by the rest of the pattern. -/
theorem OwnFills.rest {pattern text : List α} (fills : OwnFills star (star :: pattern) text)
    : ∃ rest, rest <:+ text ∧ OwnFills star pattern rest := by
  cases fills with
  | keep plain => exact absurd rfl plain
  | fill filled allowed later => exact ⟨_, List.suffix_append _ _, later⟩

/-- The end of a text is matched by stars only. -/
theorem ownFills_end_iff {pattern : List α}
    : OwnFills star pattern [] ↔ ∀ element ∈ pattern, element = star := by
  induction pattern with
  | nil => simp [ownFills_nil_iff]
  | cons element pattern ih =>
      by_cases isStar : element = star
      · subst isStar
        rw [ownFills_free_iff (by simp)]
        simp [ih]
      · rw [ownFills_plain_iff isStar]
        simp [isStar]

variable [DecidableEq α]

/-- A part that stands in both matches itself and nothing else, by induction on the part. -/
theorem ownFills_append_self (part : List α) {pattern text : List α}
    : OwnFills star (part ++ pattern) (part ++ text) ↔ OwnFills star pattern text := by
  induction part with
  | nil => rfl
  | cons element part ih =>
      by_cases isStar : element = star
      · subst isStar
        exact ownFills_star_iff.trans ih
      · rw [List.cons_append, List.cons_append, ownFills_plain_iff isStar]
        simp [ih]

/-- A part without stars matches only itself, by induction on the part. -/
theorem ownFills_append_plain {part : List α} (plain : star ∉ part) {pattern text : List α}
    : OwnFills star (part ++ pattern) text
      ↔ ∃ rest, text = part ++ rest ∧ OwnFills star pattern rest := by
  constructor
  · intro fills
    induction part generalizing text with
    | nil => exact ⟨text, rfl, fills⟩
    | cons element part ih =>
        have other : element ≠ star := fun found => plain (by simp [found])
        obtain ⟨rest, rfl, later⟩ := (ownFills_plain_iff other).mp fills
        obtain ⟨rest, rfl, found⟩ := ih (fun member => plain (by simp [member])) later
        exact ⟨rest, rfl, found⟩
  · rintro ⟨rest, rfl, later⟩
    exact (ownFills_append_self part).mpr later

/-- A later place never leaves more text than the first place where a part of the pattern
stands literally. By induction on the part, from its end.
-/
theorem ownFills_rest {part pattern text place : List α}
    (fills : OwnFills star (part ++ pattern) place) (inside : place <:+ part ++ text)
    : ∃ rest, rest <:+ text ∧ OwnFills star pattern rest := by
  induction part using List.reverseRecOn generalizing pattern text with
  | nil => exact ⟨place, inside, fills⟩
  | append_singleton part element ih =>
      rw [List.append_assoc] at fills inside
      obtain ⟨rest, short, later⟩ := ih fills inside
      obtain same | short := List.suffix_cons_iff.mp short
      · -- the place is as long as it can be, so that the element stands in front
        subst same
        have own : OwnFills star ([element] ++ pattern) ([element] ++ text) := later
        exact ⟨text, List.suffix_rfl, (ownFills_append_self [element]).mp own⟩
      · by_cases isStar : element = star
        · subst isStar
          obtain ⟨more, within, found⟩ := OwnFills.rest later
          exact ⟨more, within.trans short, found⟩
        · obtain ⟨more, rfl, found⟩ := (ownFills_plain_iff isStar).mp later
          exact ⟨more, (List.suffix_cons element more).trans short, found⟩

end Own

-----------------------------------------------------------------------------------------
-- Encoded text
-----------------------------------------------------------------------------------------

section Encoded

variable {byte : UInt8} (ascii : byte < 0x80)
include ascii

theorem head?_toUtf8_iff {text : Text}
    : (toUtf8 text).head? = some byte ↔ text.head? = some (Char.ofNat byte.toNat) := by
  constructor
  · intro starts
    obtain ⟨after, whole⟩ := List.head?_eq_some_iff.mp starts
    obtain ⟨front, back, rfl, before, -⟩ := @exists_ascii_char text [] after byte whole ascii
    obtain rfl : front = [] := toUtf8_injective before
    rfl
  · intro starts
    obtain ⟨rest, rfl⟩ := List.head?_eq_some_iff.mp starts
    rw [toUtf8_cons, encode_ofNat ascii]
    rfl

/-- What a pattern leaves may be taken to start at a whole character. -/
theorem exists_whole_rest {pattern text : Text} {rest : Bytes} (inside : rest <:+ toUtf8 text)
    (fills : OwnFills byte (toUtf8 pattern) rest)
    : ∃ whole, whole <:+ text ∧ OwnFills byte (toUtf8 pattern) (toUtf8 whole) := by
  obtain ⟨before, split⟩ := inside
  have cut := utf8Cut split.symm
  generalize same : rest = after at cut
  cases cut with
  | @between left right whole =>
      subst same
      exact ⟨right, ⟨left, whole.symm⟩, fills⟩
  | @inside left right c part after whole started unfinished outside high continues =>
      subst same
      obtain ⟨first, after, rfl⟩ := List.exists_cons_of_ne_nil unfinished
      have continued : isContinuation first = true := continues first (by simp)
      refine ⟨c :: right, ⟨left, whole.symm⟩, ?_⟩
      cases pattern with
      | nil => exact absurd (ownFills_nil_iff.mp fills) (by simp)
      | cons d pattern =>
          obtain ⟨lead, tail, shape, starts, -⟩ := utf8EncodeChar_shape d
          rw [toUtf8_cons d, shape, List.cons_append] at fills ⊢
          by_cases isStar : lead = byte
          · -- the star takes the front of the character as well
            subst isStar
            have other : first ≠ lead := by
              rintro rfl
              exact not_ascii_of_continuation continued ascii
            obtain ⟨later, within, found⟩ := (ownFills_free_iff (by simpa using other)).mp fills
            have notStar : (toUtf8 (c :: right)).head? ≠ some lead := by
              rw [ne_eq, head?_toUtf8_iff ascii]
              rintro starts
              obtain rfl := Option.some.inj starts
              have small : lead.toNat < 128 := UInt8.lt_iff_toNat_lt.mp ascii
              exact outside (by rw [toNat_charOfNat (.inl (by omega))]; exact small)
            refine (ownFills_free_iff notStar).mpr ⟨later, within.trans ⟨part, ?_⟩, found⟩
            rw [whole, toUtf8_append, List.append_assoc] at split
            exact List.append_cancel_left split
          · obtain ⟨more, same, -⟩ := (ownFills_plain_iff isStar).mp fills
            obtain ⟨rfl, -⟩ := List.cons.inj same
            rw [continued] at starts
            cases starts

/-- On encoded text a pattern means what it means on the characters, by induction on it. -/
theorem ownFills_toUtf8_iff {pattern text : Text}
    : OwnFills byte (toUtf8 pattern) (toUtf8 text)
      ↔ OwnFills (Char.ofNat byte.toNat) pattern text := by
  induction pattern generalizing text with
  | nil =>
      rw [show toUtf8 [] = [] from rfl, ownFills_nil_iff, ownFills_nil_iff]
      exact ⟨fun none => toUtf8_injective none, fun none => by rw [none]; rfl⟩
  | cons c pattern ih =>
      by_cases isStar : c = Char.ofNat byte.toNat
      · subst isStar
        rw [toUtf8_cons, encode_ofNat ascii, List.singleton_append]
        by_cases meets : text.head? = some (Char.ofNat byte.toNat)
        · obtain ⟨text, rfl⟩ := List.head?_eq_some_iff.mp meets
          rw [toUtf8_cons, encode_ofNat ascii, List.singleton_append, ownFills_star_iff,
            ownFills_star_iff, ih]
        · rw [ownFills_free_iff meets, ownFills_free_iff ((head?_toUtf8_iff ascii).not.mpr meets)]
          constructor
          · rintro ⟨rest, inside, found⟩
            obtain ⟨whole, within, fills⟩ := exists_whole_rest ascii inside found
            exact ⟨whole, within, ih.mp fills⟩
          · rintro ⟨rest, ⟨front, rfl⟩, found⟩
            exact ⟨toUtf8 rest, ⟨toUtf8 front, (toUtf8_append ..).symm⟩, ih.mpr found⟩
      · have plain : byte ∉ String.utf8EncodeChar c := by
          have absent : byte ∉ toUtf8 [c] :=
            not_mem_toUtf8 ascii (by simpa using Ne.symm isStar)
          simpa [toUtf8] using absent
        rw [toUtf8_cons, ownFills_append_plain plain, ownFills_plain_iff isStar]
        constructor
        · rintro ⟨rest, whole, found⟩
          have one : toUtf8 text = toUtf8 [c] ++ rest := by simpa [toUtf8] using whole
          have encoded := toUtf8_rest one
          refine ⟨fromUtf8Lossy rest, ?_, ?_⟩
          · rw [encoded, ← toUtf8_append] at one
            exact toUtf8_injective one
          · rw [encoded] at found
            exact ih.mp found
        · rintro ⟨rest, rfl, found⟩
          exact ⟨toUtf8 rest, toUtf8_cons c rest, ih.mpr found⟩

end Encoded

end Library
