import Emwin.Library.Globs

/-! The wildcard matcher of the filename filters, and the texts that it accepts. -/

namespace Emwin.Live
open Library

/-- `char::to_ascii_lowercase`: only the ASCII letters change. -/
def asciiLowercase (c : Char) : Char :=
  if 'A' ≤ c ∧ c ≤ 'Z' then Char.ofNat (c.toNat + 32) else c

/-- `str::to_ascii_lowercase`. -/
def toAsciiLowercase (text : Text) : Text := text.map asciiLowercase

/-- The byte of `*`. -/
def starByte : UInt8 := 0x2A

/-- The variables of `wildcard_match`. -/
structure Cursor where
  pi : Nat := 0
  ti : Nat := 0
  starIdx : Option Nat := none
  matchIdx : Nat := 0
  deriving DecidableEq, Repr

/-- What one pass through the loop does. -/
inductive Turn where
  | stop (matched : Bool)
  | go (next : Cursor)
  deriving DecidableEq, Repr

/-- One pass through the loop, or what follows it. -/
def Cursor.turn (p t : Bytes) (cursor : Cursor) : Turn :=
  if cursor.ti < t.length then
    if cursor.pi < p.length ∧ p[cursor.pi]? = t[cursor.ti]? then
      .go { cursor with pi := cursor.pi + 1, ti := cursor.ti + 1 }
    else if cursor.pi < p.length ∧ p[cursor.pi]? = some starByte then
      .go { cursor with
        starIdx := some cursor.pi
        matchIdx := cursor.ti
        pi := cursor.pi + 1 }
    else
      match cursor.starIdx with
      | some starPos =>
          .go { cursor with
            pi := starPos + 1
            matchIdx := cursor.matchIdx + 1
            ti := cursor.matchIdx + 1 }
      | none => .stop false
  else .stop ((p.drop cursor.pi).all (· == starByte))

/-- At most so many passes from here. -/
def Cursor.run (p t : Bytes) : Nat → Cursor → Option Bool
  | 0, _ => none
  | turns + 1, cursor =>
      match cursor.turn p t with
      | .stop matched => some matched
      | .go next => next.run p t turns

/-- `wildcard_match`, if it stops within a number of passes. -/
def wildcardMatch (turns : Nat) (pattern text : Text) : Option Bool :=
  Cursor.run (toUtf8 (toAsciiLowercase pattern)) (toUtf8 (toAsciiLowercase text)) turns {}

-----------------------------------------------------------------------------------------
-- What the loop decides
-----------------------------------------------------------------------------------------

section Loop

variable {p t : Bytes} {cursor next : Cursor}

/-- What every pass keeps. Behind a remembered star, pattern and text agree up to the cursor. -/
structure Cursor.Valid (p t : Bytes) (cursor : Cursor) : Prop where
  inPattern : cursor.pi ≤ p.length
  inText : cursor.ti ≤ t.length
  later : cursor.matchIdx ≤ cursor.ti
  agrees
    : ∀ starPos,
        cursor.starIdx = some starPos
        → starPos < cursor.pi
          ∧ ∃ part,
              p.drop (starPos + 1) = part ++ p.drop cursor.pi
              ∧ t.drop cursor.matchIdx = part ++ t.drop cursor.ti

/-- The texts that are accepted from a cursor: with a remembered star, from any later place. -/
def Cursor.Accepts (p t : Bytes) (cursor : Cursor) : Prop :=
  match cursor.starIdx with
  | none => OwnFills starByte (p.drop cursor.pi) (t.drop cursor.ti)
  | some starPos =>
      ∃ rest,
        rest <:+ t.drop cursor.matchIdx ∧ OwnFills starByte (p.drop (starPos + 1)) rest

/-- The places at which a star was or may still be remembered. -/
def Cursor.places (t : Bytes) (cursor : Cursor) : Nat :=
  match cursor.starIdx with
  | none => t.length + 1
  | some _ => t.length - cursor.matchIdx

/-- Passes that are left: every place costs at most a run through both. -/
def Cursor.left (p t : Bytes) (cursor : Cursor) : Nat :=
  cursor.places t * (p.length + t.length + 1)
    + (p.length - cursor.pi) + (t.length - cursor.ti)

theorem Cursor.valid_start : Cursor.Valid p t {} where
  inPattern := Nat.zero_le _
  inText := Nat.zero_le _
  later := Nat.le_refl _
  agrees := nofun

theorem drop_eq_cons {list : Bytes} {index : Nat} {byte : UInt8}
    (found : list[index]? = some byte)
    : list.drop index = byte :: list.drop (index + 1) := by
  obtain ⟨inside, here⟩ := List.getElem?_eq_some_iff.mp found
  rw [List.drop_eq_getElem_cons inside, here]

/-- What one pass does, by the branch that it takes. -/
theorem Cursor.turn_cases (p t : Bytes) (cursor : Cursor)
    : (∃ byte,
        p[cursor.pi]? = some byte ∧ t[cursor.ti]? = some byte
        ∧ cursor.turn p t = .go { cursor with pi := cursor.pi + 1, ti := cursor.ti + 1 })
      ∨ (∃ byte,
          p[cursor.pi]? = some starByte ∧ t[cursor.ti]? = some byte ∧ byte ≠ starByte
          ∧ cursor.turn p t
            = .go { cursor with
                starIdx := some cursor.pi
                matchIdx := cursor.ti
                pi := cursor.pi + 1 })
      ∨ (∃ byte,
          t[cursor.ti]? = some byte
          ∧ p[cursor.pi]? ≠ some byte ∧ p[cursor.pi]? ≠ some starByte
          ∧ cursor.turn p t
            = match cursor.starIdx with
              | some starPos =>
                  .go { cursor with
                    pi := starPos + 1
                    matchIdx := cursor.matchIdx + 1
                    ti := cursor.matchIdx + 1 }
              | none => .stop false)
      ∨ (t.length ≤ cursor.ti
          ∧ cursor.turn p t = .stop ((p.drop cursor.pi).all (· == starByte))) := by
  by_cases inside : cursor.ti < t.length
  · have here : t[cursor.ti]? = some t[cursor.ti] := List.getElem?_eq_getElem inside
    have present {byte : UInt8} (found : p[cursor.pi]? = some byte) : cursor.pi < p.length :=
      (List.getElem?_eq_some_iff.mp found).1
    by_cases same : p[cursor.pi]? = some t[cursor.ti]
    · refine .inl ⟨_, same, here, ?_⟩
      rw [Cursor.turn, if_pos inside, if_pos ⟨present same, by rw [same, here]⟩]
    · have different : ¬ (cursor.pi < p.length ∧ p[cursor.pi]? = t[cursor.ti]?) := by
        rw [here]
        exact fun found => same found.2
      by_cases isStar : p[cursor.pi]? = some starByte
      · refine .inr (.inl ⟨_, isStar, here, ?_, ?_⟩)
        · rintro found
          exact same (isStar.trans (congrArg some found.symm))
        · rw [Cursor.turn, if_pos inside, if_neg different, if_pos ⟨present isStar, isStar⟩]
      · refine .inr (.inr (.inl ⟨_, here, same, isStar, ?_⟩))
        rw [Cursor.turn, if_pos inside, if_neg different, if_neg fun found => isStar found.2]
  · refine .inr (.inr (.inr ⟨Nat.le_of_not_lt inside, ?_⟩))
    rw [Cursor.turn, if_neg inside]

/-- A pair of equal bytes is passed. -/
theorem Cursor.Valid.pass (valid : cursor.Valid p t) {byte : UInt8}
    (inP : p[cursor.pi]? = some byte) (inT : t[cursor.ti]? = some byte)
    (moves : next = { cursor with pi := cursor.pi + 1, ti := cursor.ti + 1 })
    : next.Valid p t ∧ next.left p t < cursor.left p t
      ∧ (next.Accepts p t ↔ cursor.Accepts p t) := by
  subst moves
  have morePattern := (List.getElem?_eq_some_iff.mp inP).1
  have moreText := (List.getElem?_eq_some_iff.mp inT).1
  refine ⟨⟨morePattern, moreText, Nat.le_succ_of_le valid.later, ?_⟩, ?_, ?_⟩
  · intro starPos found
    obtain ⟨before, part, pattern, text⟩ := valid.agrees starPos found
    refine ⟨Nat.lt_succ_of_lt before, part ++ [byte], ?_, ?_⟩
    · rw [pattern, drop_eq_cons inP, List.append_assoc, List.singleton_append]
    · rw [text, drop_eq_cons inT, List.append_assoc, List.singleton_append]
  · simp only [Cursor.left, Cursor.places]
    omega
  · unfold Cursor.Accepts
    cases cursor.starIdx with
    | some starPos => rfl
    | none =>
        dsimp only
        rw [drop_eq_cons inP, drop_eq_cons inT]
        exact (ownFills_append_self [byte]).symm

/-- A star is remembered in front of any byte but a star. -/
theorem Cursor.Valid.remember (valid : cursor.Valid p t) {byte : UInt8}
    (isStar : p[cursor.pi]? = some starByte) (inT : t[cursor.ti]? = some byte)
    (other : byte ≠ starByte)
    (moves
      : next
        = { cursor with
            starIdx := some cursor.pi
            matchIdx := cursor.ti
            pi := cursor.pi + 1 })
    : next.Valid p t ∧ next.left p t < cursor.left p t
      ∧ (next.Accepts p t ↔ cursor.Accepts p t) := by
  subst moves
  have morePattern := (List.getElem?_eq_some_iff.mp isStar).1
  have free : (t.drop cursor.ti).head? ≠ some starByte := by
    rw [drop_eq_cons inT]
    simpa using other
  refine ⟨⟨morePattern, valid.inText, Nat.le_refl _, ?_⟩, ?_, ?_⟩
  · rintro _ ⟨⟩
    exact ⟨Nat.lt_succ_self _, [], rfl, rfl⟩
  · have fewer : t.length - cursor.ti ≤ cursor.places t := by
      have later := valid.later
      unfold Cursor.places
      split <;> omega
    have bound := Nat.mul_le_mul_right (p.length + t.length + 1) fewer
    simp only [Cursor.left, Cursor.places] at bound ⊢
    omega
  · unfold Cursor.Accepts
    cases found : cursor.starIdx with
    | none =>
        dsimp only
        rw [drop_eq_cons isStar, ownFills_free_iff free]
    | some starPos =>
        obtain ⟨-, part, pattern, text⟩ := valid.agrees starPos found
        dsimp only
        rw [pattern, text, drop_eq_cons isStar]
        constructor
        · intro accepts
          exact ⟨_, List.suffix_rfl,
            (ownFills_append_self part).mpr ((ownFills_free_iff free).mpr accepts)⟩
        · rintro ⟨place, inside, fills⟩
          obtain ⟨rest, short, fills⟩ := ownFills_rest fills inside
          obtain ⟨more, within, found⟩ := OwnFills.rest fills
          exact ⟨more, within.trans short, found⟩

/-- Without a pattern for the next byte nothing is accepted from here. -/
theorem not_ownFills {byte : UInt8} {pattern rest : Bytes}
    (different : pattern.head? ≠ some byte) (noStar : pattern.head? ≠ some starByte)
    : ¬ OwnFills starByte pattern (byte :: rest) := by
  intro fills
  cases pattern with
  | nil => cases ownFills_nil_iff.mp fills
  | cons first pattern =>
      obtain ⟨rest, same, -⟩ := (ownFills_plain_iff (by simpa using noStar)).mp fills
      obtain ⟨rfl, -⟩ := List.cons.inj same
      exact different rfl

/-- From the remembered star the next place is tried. -/
theorem Cursor.Valid.retry (valid : cursor.Valid p t) {byte : UInt8} {starPos : Nat}
    (inT : t[cursor.ti]? = some byte) (different : p[cursor.pi]? ≠ some byte)
    (noStar : p[cursor.pi]? ≠ some starByte) (found : cursor.starIdx = some starPos)
    (moves
      : next
        = { cursor with
            pi := starPos + 1
            matchIdx := cursor.matchIdx + 1
            ti := cursor.matchIdx + 1 })
    : next.Valid p t ∧ next.left p t < cursor.left p t
      ∧ (next.Accepts p t ↔ cursor.Accepts p t) := by
  subst moves
  obtain ⟨before, part, pattern, text⟩ := valid.agrees starPos found
  have moreText := (List.getElem?_eq_some_iff.mp inT).1
  have later := valid.later
  have inPattern := valid.inPattern
  refine ⟨⟨Nat.lt_of_lt_of_le before inPattern, ?_, Nat.le_refl _, ?_⟩, ?_, ?_⟩
  · exact Nat.lt_of_le_of_lt later moreText
  · intro again same
    obtain rfl := Option.some.inj (found.symm.trans same)
    exact ⟨Nat.lt_succ_self _, [], rfl, rfl⟩
  · obtain ⟨places, more⟩ : ∃ places, t.length - cursor.matchIdx = places + 1 :=
      ⟨t.length - cursor.matchIdx - 1, by omega⟩
    have fewer : t.length - (cursor.matchIdx + 1) = places := by omega
    simp only [Cursor.left, Cursor.places, found, more, fewer, Nat.succ_mul]
    omega
  · have mismatch : ¬ OwnFills starByte (p.drop (starPos + 1)) (t.drop cursor.matchIdx) := by
      rw [pattern, text, ownFills_append_self, drop_eq_cons inT]
      exact not_ownFills (by rwa [List.head?_drop]) (by rwa [List.head?_drop])
    have first : t[cursor.matchIdx]? = some t[cursor.matchIdx] :=
      List.getElem?_eq_getElem (Nat.lt_of_le_of_lt later moreText)
    simp only [Cursor.Accepts, found]
    constructor
    · rintro ⟨rest, inside, fills⟩
      refine ⟨rest, inside.trans ?_, fills⟩
      rw [drop_eq_cons first]
      exact List.suffix_cons _ _
    · rintro ⟨rest, inside, fills⟩
      refine ⟨rest, ?_, fills⟩
      rw [drop_eq_cons first, List.suffix_cons_iff, ← drop_eq_cons first] at inside
      obtain rfl | inside := inside
      · exact absurd fills mismatch
      · exact inside

/-- At the end of the text only stars may be left of the pattern. -/
theorem Cursor.Valid.ends (valid : cursor.Valid p t) (past : t.length ≤ cursor.ti)
    : (p.drop cursor.pi).all (· == starByte) = true ↔ cursor.Accepts p t := by
  have done : t.drop cursor.ti = [] := List.drop_eq_nil_of_le past
  have stars
      : (p.drop cursor.pi).all (· == starByte) = true
        ↔ OwnFills starByte (p.drop cursor.pi) [] := by
    rw [ownFills_end_iff, List.all_eq_true]
    simp only [beq_iff_eq]
  unfold Cursor.Accepts
  cases found : cursor.starIdx with
  | none =>
      dsimp only
      rw [stars, done]
  | some starPos =>
      obtain ⟨-, part, pattern, text⟩ := valid.agrees starPos found
      dsimp only
      rw [stars, pattern, text, done]
      constructor
      · exact fun fills => ⟨_, List.suffix_rfl, (ownFills_append_self part).mpr fills⟩
      · rintro ⟨place, inside, fills⟩
        obtain ⟨rest, short, fills⟩ := ownFills_rest fills inside
        rwa [List.suffix_nil.mp short] at fills

/-- A pass stops with the answer, or goes on with fewer passes left and the same texts accepted. -/
theorem Cursor.Valid.turn (valid : cursor.Valid p t)
    : (∃ matched, cursor.turn p t = .stop matched ∧ (matched = true ↔ cursor.Accepts p t))
      ∨ ∃ next,
          cursor.turn p t = .go next ∧ next.Valid p t ∧ next.left p t < cursor.left p t
          ∧ (next.Accepts p t ↔ cursor.Accepts p t) := by
  obtain ⟨byte, inP, inT, turns⟩ | ⟨byte, isStar, inT, other, turns⟩
    | ⟨byte, inT, different, noStar, turns⟩ | ⟨past, turns⟩ := cursor.turn_cases p t
  · exact .inr ⟨_, turns, valid.pass inP inT rfl⟩
  · exact .inr ⟨_, turns, valid.remember isStar inT other rfl⟩
  · cases found : cursor.starIdx with
    | some starPos =>
        rw [found] at turns
        exact .inr ⟨_, turns, valid.retry inT different noStar found (by rw [found])⟩
    | none =>
        rw [found] at turns
        refine .inl ⟨false, turns, ?_⟩
        simp only [Cursor.Accepts, found, Bool.false_eq_true, false_iff]
        rw [drop_eq_cons inT]
        exact not_ownFills (by rwa [List.head?_drop]) (by rwa [List.head?_drop])
  · exact .inl ⟨_, turns, valid.ends past⟩

/-- The loop stops within the passes left, with the answer. By induction on the passes. -/
theorem Cursor.Valid.run (valid : cursor.Valid p t) {turns : Nat}
    (enough : cursor.left p t < turns)
    : ∃ matched,
        cursor.run p t turns = some matched ∧ (matched = true ↔ cursor.Accepts p t) := by
  induction turns generalizing cursor with
  | zero => exact absurd enough (Nat.not_lt_zero _)
  | succ turns ih =>
      rw [Cursor.run]
      obtain ⟨matched, stops, answer⟩ | ⟨next, goes, valid, fewer, same⟩ := valid.turn
      · exact ⟨matched, by rw [stops], answer⟩
      · obtain ⟨matched, later, answer⟩ := ih valid (by omega)
        exact ⟨matched, by rw [goes]; exact later, answer.trans same⟩

end Loop

-----------------------------------------------------------------------------------------
-- What a pattern means
-----------------------------------------------------------------------------------------

/-- The matcher stops with an answer, however many passes it is given from some number on. -/
def Answers (pattern text : Text) (matched : Bool) : Prop :=
  ∃ turns, ∀ more, wildcardMatch (turns + more) pattern text = some matched

/-- ASCII letters are compared without case. -/
def SameLetter (left right : Char) : Prop := asciiLowercase left = asciiLowercase right

/-- The text is the pattern with any string for each `*`. -/
abbrev Obtained : Text → Text → Prop := Fills '*' SameLetter fun _ _ => True

/-- The same, where a `*` in front of a `*` of the text stands for just that character. -/
abbrev ObtainedByOwnStars : Text → Text → Prop := Fills '*' SameLetter (OwnStar '*')

theorem asciiLowercase_eq_star {c : Char} (star : asciiLowercase c = '*') : c = '*' := by
  unfold asciiLowercase at star
  split at star
  · next upper =>
      have low : 'A'.toNat ≤ c.toNat := upper.1
      have high : c.toNat ≤ 'Z'.toNat := upper.2
      have code := congrArg Char.toNat star
      simp only [Char.reduceToNat] at low high code
      rw [toNat_charOfNat (.inl (by omega))] at code
      omega
  · exact star

theorem obtainedByOwnStars_iff {pattern text : Text}
    : ObtainedByOwnStars pattern text
      ↔ OwnFills '*' (toAsciiLowercase pattern) (toAsciiLowercase text) := by
  have fixed : asciiLowercase '*' = '*' := by decide
  have star {c : Char} : asciiLowercase c = '*' ↔ c = '*' :=
    ⟨asciiLowercase_eq_star, fun same => by rw [same, fixed]⟩
  have maps := @fills_map_iff Char '*' (OwnStar '*') Char asciiLowercase (OwnStar '*')
    (fun c same => asciiLowercase_eq_star (same.trans fixed))
    (by
      intro filled rest
      rw [OwnStar, OwnStar, ← List.map_append, List.head?_map]
      refine or_congr ?_ (not_congr ?_)
      · cases filled with
        | nil => simp
        | cons c filled => simp [star]
      · cases (filled ++ rest).head? <;> simp [star])
    pattern text
  rw [fixed] at maps
  exact maps

/-- The matcher always stops. It accepts the texts obtained when a `*` in front of a `*` of the
text stands for just that character.
-/
theorem wildcardMatch_returns (pattern text : Text)
    : ∃ matched, Answers pattern text matched
        ∧ (matched = true ↔ ObtainedByOwnStars pattern text) := by
  have accepts
      : Cursor.Accepts (toUtf8 (toAsciiLowercase pattern)) (toUtf8 (toAsciiLowercase text)) {}
        ↔ ObtainedByOwnStars pattern text := by
    rw [obtainedByOwnStars_iff]
    exact @ownFills_toUtf8_iff starByte (by decide) _ _
  let start : Cursor := {}
  let bound := start.left (toUtf8 (toAsciiLowercase pattern)) (toUtf8 (toAsciiLowercase text)) + 1
  have stops (more : Nat)
      : ∃ matched, wildcardMatch (bound + more) pattern text = some matched
          ∧ (matched = true ↔ ObtainedByOwnStars pattern text) := by
    obtain ⟨matched, run, answer⟩ :=
      Cursor.valid_start.run (Nat.lt_add_right more (Nat.lt_succ_self (start.left _ _)))
    exact ⟨matched, run, answer.trans accepts⟩
  obtain ⟨matched, -, answer⟩ := stops 0
  refine ⟨matched, ⟨bound, fun more => ?_⟩, answer⟩
  obtain ⟨other, again, sameAnswer⟩ := stops more
  rw [again, Bool.eq_iff_iff.mpr (sameAnswer.trans answer.symm)]

theorem Answers.unique {pattern text : Text} {first second : Bool}
    (one : Answers pattern text first) (two : Answers pattern text second)
    : first = second := by
  obtain ⟨turns, one⟩ := one
  obtain ⟨others, two⟩ := two
  have left := one others
  rw [Nat.add_comm, two turns] at left
  exact (Option.some.inj left).symm

/-- The matcher is right exactly if a text that can be obtained can be obtained with each `*` in
front of a `*` of the text standing for just that character.
-/
theorem wildcardMatch_correct_iff (pattern text : Text)
    : (∃ matched, Answers pattern text matched ∧ (matched = true ↔ Obtained pattern text))
      ↔ (Obtained pattern text → ObtainedByOwnStars pattern text) := by
  obtain ⟨matched, returns, answer⟩ := wildcardMatch_returns pattern text
  have obtained : ObtainedByOwnStars pattern text → Obtained pattern text :=
    Fills.mono fun _ _ _ => trivial
  constructor
  · rintro ⟨other, again, right⟩ found
    obtain rfl := returns.unique again
    exact answer.mp (right.mpr found)
  · exact fun own => ⟨matched, returns, answer.trans ⟨obtained, own⟩⟩

/-- A text without `*` is never mistaken. -/
theorem obtainedByOwnStars_of_no_star {pattern text : Text} (absent : '*' ∉ text)
    (found : Obtained pattern text)
    : ObtainedByOwnStars pattern text := by
  induction found with
  | done => exact .done
  | keep plain alike _ ih => exact .keep plain alike (ih fun member => absent (by simp [member]))
  | @fill pattern text filled _ _ ih =>
      refine .fill filled (.inr fun starts => ?_) (ih fun member => absent (by simp [member]))
      exact absent (List.mem_of_head? starts)

/-- `*` is not matched by `*a`: the star of the pattern is taken for the star of the text. -/
theorem wildcardMatch_misses_star
    : ¬ ∀ pattern text,
        ∃ matched, Answers pattern text matched ∧ (matched = true ↔ Obtained pattern text) := by
  intro right
  obtain ⟨matched, ⟨turns, returns⟩, answer⟩ := right ['*'] ['*', 'a']
  have obtained : Obtained ['*'] ['*', 'a'] :=
    @Fills.fill _ _ _ _ [] [] ['*', 'a'] trivial .done
  have stopped : wildcardMatch (2 + turns) ['*'] ['*', 'a'] = some false := by
    rw [Nat.add_comm]
    rfl
  rw [Nat.add_comm, returns 2] at stopped
  obtain rfl := Option.some.inj stopped
  cases answer.mpr obtained

end Emwin.Live
