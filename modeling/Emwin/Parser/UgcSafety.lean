import Emwin.Parser.UgcWriting

/-! Which texts the UGC sections are read in: two of the cuts need a character boundary that the
code does not ask for, and all others are safe.
-/

namespace Emwin.Parser
open Library

-----------------------------------------------------------------------------------------
-- Expiration times
-----------------------------------------------------------------------------------------

/-- The seven bytes at the end of a text with a dash at its end, where it has eight, are whole
characters.
-/
def SuffixCuts (text : Text) : Prop :=
  8 ≤ utf8Len text → text.getLast? = some '-' → isCharBoundary (utf8Len text - 7) text = true

theorem returns_hasUgcExpirationSuffix_iff (text : Text)
    : Returns (hasUgcExpirationSuffix text) ↔ SuffixCuts text := by
  unfold hasUgcExpirationSuffix SuffixCuts
  split
  · next short =>
      refine iff_of_true (returns_pure _) fun long ends => ?_
      rcases short with short | other
      · omega
      · exact absurd ends other
  · next guard =>
      rw [not_or, not_not] at guard
      obtain ⟨front, rfl⟩ := List.getLast?_eq_some_iff.mp guard.2
      have size : utf8Len (front ++ ['-']) = utf8Len front + 1 := by
        rw [utf8Len_append]
        rfl
      have cut := @returns_slice_front_iff (utf8Len (front ++ ['-']) - 7) front ['-'] (by omega)
      rw [show utf8Len (front ++ ['-']) - 1 = utf8Len front by omega]
      constructor
      · intro returns long ends
        obtain ⟨digits, here, -⟩ := returns_bind_iff.mp returns
        exact cut.mp ⟨digits, here⟩
      · intro boundary
        exact (cut.mpr (boundary (by omega) (by simp))).bind fun _ _ => returns_pure _

/-- A text that passes the test is a block, a dash, six digits and a dash. -/
theorem exists_expiration {text : Text} (complete : hasUgcExpirationSuffix text = .ok true)
    : ∃ block digits,
        text = block ++ '-' :: (digits ++ ['-'])
        ∧ digits.length = 6 ∧ digits.all Char.isDigit = true := by
  unfold hasUgcExpirationSuffix at complete
  split at complete
  · cases complete
  · next guard =>
      rw [not_or, not_not] at guard
      obtain ⟨front, rfl⟩ := List.getLast?_eq_some_iff.mp guard.2
      have size : utf8Len (front ++ ['-']) = utf8Len front + 1 := by
        rw [utf8Len_append]
        rfl
      obtain ⟨digits, cut, answer⟩ := exceptBind_ok_iff.mp complete
      have both := Except.ok.inj answer
      rw [Bool.and_eq_true, beq_iff_eq] at both
      rw [show utf8Len (front ++ ['-']) - 1 = utf8Len front by omega, slice, sliceTo_append,
        ok_bind] at cut
      obtain ⟨before, rfl, place⟩ := sliceFrom_eq_ok_iff.mp cut
      have ascii := isAscii_of_digits both.1
      have whole := utf8Len_append before digits
      obtain ⟨block, back, same, sizes⟩ := byteAt?_ascii both.2 (by decide)
      rw [ascii.utf8Len_eq] at whole
      have dash : Char.ofNat (45 : UInt8).toNat = '-' := by decide
      rw [dash] at same
      have behind : before = block ++ ['-'] := by
        have left := sliceTo_append before (digits ++ ['-'])
        have right := sliceTo_append (block ++ ['-']) back
        have split : before ++ (digits ++ ['-']) = (block ++ ['-']) ++ back := by
          rw [← List.append_assoc, same, List.append_assoc]
          rfl
        have sizes' : utf8Len (block ++ ['-']) = utf8Len before := by
          rw [utf8Len_append, show utf8Len ['-'] = 1 from rfl]
          omega
        rw [split, ← sizes', right] at left
        exact (Except.ok.inj left).symm
      exact ⟨block, digits, by rw [behind]; simp, by omega, both.1⟩

/-- Behind the test nothing more can be cut wrong. -/
theorem extractExpiration_complete {block digits : Text}
    (complete : hasUgcExpirationSuffix (block ++ '-' :: (digits ++ ['-'])) = .ok true)
    (six : digits.length = 6) (all : digits.all Char.isDigit = true)
    : extractExpiration (block ++ '-' :: (digits ++ ['-'])) = .ok (some (block, digits)) := by
  have ascii := (isAscii_of_digits all).utf8Len_eq
  have whole : utf8Len (block ++ '-' :: (digits ++ ['-'])) = utf8Len block + 8 := by
    simp only [utf8Len_append, utf8Len_cons, ascii, six]
    rfl
  have front := sliceTo_append block ('-' :: (digits ++ ['-']))
  have back : slice (utf8Len block + 1) (utf8Len block + 7) (block ++ '-' :: (digits ++ ['-']))
      = .ok digits := by
    have cut := slice_append (block ++ ['-']) digits ['-']
    have size : utf8Len (block ++ ['-']) = utf8Len block + 1 := by
      rw [utf8Len_append]
      rfl
    rw [size, ascii, six, List.append_assoc] at cut
    exact cut
  unfold extractExpiration
  rw [complete, ok_bind, if_neg (by decide), whole,
    show utf8Len block + 8 - 8 = utf8Len block by omega,
    show utf8Len block + 8 - 1 = utf8Len block + 7 by omega]
  dsimp only
  rw [front, ok_bind, back]
  rfl

-----------------------------------------------------------------------------------------
-- Numbers
-----------------------------------------------------------------------------------------

theorem parseUgcNumber_lt {token : Text} {number : Nat} (read : parseUgcNumber token = some number)
    : number < 1000 := by
  unfold parseUgcNumber at read
  split at read
  · next three =>
      rw [isThreeDigitUgcToken, Bool.and_eq_true, beq_iff_eq] at three
      have size := (isAscii_of_digits three.2).utf8Len_eq
      have small := digitsNat_lt three.2
      have nonempty : token ≠ [] := by
        rintro rfl
        cases three.1
      rw [← size, three.1] at small
      rw [parseUnsigned_digits nonempty three.2 (by omega)] at read
      obtain rfl := Option.some.inj read
      exact small
  · cases read

/-- No number of a range leaves its type. -/
theorem returns_parseUgcRangeEnd {start : Nat} (small : start < 1000) (token : Text)
    : Returns (parseUgcRangeEnd start token) := by
  unfold parseUgcRangeEnd
  split
  · exact returns_pure _
  · next digits =>
      split
      · exact returns_pure _
      · next short =>
          split
          · exact returns_pure _
          · next suffix read =>
              rw [isOneToThreeDigitUgcToken] at digits
              simp only [Bool.not_eq_true', Bool.not_eq_false, Bool.and_eq_true,
                decide_eq_true_eq] at digits
              have size := (isAscii_of_digits digits.2).utf8Len_eq
              have value := digitsNat_lt digits.2
              have power : 10 ^ token.length ≤ 10 ^ 2 :=
                Nat.pow_le_pow_right (by omega) (by omega)
              have nonempty : token ≠ [] := by
                rintro rfl
                exact absurd digits.1.1 (by decide)
              rw [parseUnsigned_digits nonempty digits.2 (by omega)] at read
              obtain rfl := Option.some.inj read
              have down := Nat.div_mul_le_self start (10 ^ utf8Len token)
              have front : checkedU16 (start / 10 ^ utf8Len token * 10 ^ utf8Len token)
                  = .ok (start / 10 ^ utf8Len token * 10 ^ utf8Len token) := if_pos (by omega)
              have last : checkedU16
                  (start / 10 ^ utf8Len token * 10 ^ utf8Len token + digitsNat token)
                  = .ok (start / 10 ^ utf8Len token * 10 ^ utf8Len token + digitsNat token) :=
                if_pos (by omega)
              dsimp only
              rw [front, ok_bind, last]
              exact returns_pure _

/-- Pairs are read two tokens at a time. -/
theorem returns_parseUgcRangePairs (tokens : List Text) : Returns (parseUgcRangePairs tokens) := by
  fun_induction parseUgcRangePairs tokens with
  | case1 startToken endToken rest none => exact returns_pure _
  | case2 startToken endToken rest start read ih =>
      refine (returns_parseUgcRangeEnd (parseUgcNumber_lt read) endToken).bind fun last _ => ?_
      cases last with
      | none => exact returns_pure _
      | some last => exact ih.bind fun _ _ => returns_pure _
  | case3 tokens few => exact returns_pure _

theorem returns_parseUgcNumericRanges (numeric : Text)
    : Returns (parseUgcNumericRanges numeric) := by
  unfold parseUgcNumericRanges
  dsimp only
  split
  · exact returns_pure _
  · split
    · exact returns_pure _
    · next first read =>
        split
        · exact returns_pure _
        · exact (returns_parseUgcRangeEnd (parseUgcNumber_lt read) _).bind
            fun _ _ => returns_pure _
        · split
          · exact returns_pure _
          · exact returns_parseUgcRangePairs _

-----------------------------------------------------------------------------------------
-- Segments
-----------------------------------------------------------------------------------------

/-- The first two bytes of a segment are whole characters, where it has six. -/
def SegmentCuts (segment : Text) : Prop := 6 ≤ utf8Len segment → isCharBoundary 2 segment = true

/-- The class letter is one byte, so that the segment may be cut behind it. -/
theorem returns_sliceFrom_class {segment : Text} {byte : UInt8}
    (found : byteAt? segment 2 = some byte)
    (letter : isUgcClassLetter (Char.ofNat byte.toNat) = true)
    : Returns (sliceFrom 3 segment) := by
  have code : (Char.ofNat byte.toNat).toNat = byte.toNat :=
    toNat_charOfNat (.inl (by have := byte.toNat_lt; omega))
  have small : (Char.ofNat byte.toNat).toNat < 128 := by
    simp only [isUgcClassLetter, Bool.or_eq_true, decide_eq_true_eq] at letter
    rcases letter with ((county | zone) | fire) | marine
    · rw [county]
      decide
    · rw [zone]
      decide
    · rw [fire]
      decide
    · rw [marine]
      decide
  obtain ⟨front, back, rfl, two⟩ :=
    byteAt?_ascii found (UInt8.lt_iff_toNat_lt.mpr (by rw [← code]; exact small))
  have one := @utf8Size_eq_one (Char.ofNat byte.toNat) (by omega)
  have cut := sliceFrom_append (front ++ [Char.ofNat byte.toNat]) back
  rw [utf8Len_append, utf8Len_cons, one, two, List.append_assoc] at cut
  exact ⟨back, cut⟩

theorem returns_parseFullUgcSegment_iff (segment : Text)
    : Returns (parseFullUgcSegment segment) ↔ SegmentCuts segment := by
  unfold parseFullUgcSegment SegmentCuts
  split
  · next short => exact iff_of_true (returns_pure _) fun long => absurd short (by omega)
  · next long =>
      rw [returns_bind_iff]
      constructor
      · rintro ⟨state, cut, -⟩ -
        exact returns_sliceTo_iff.mp ⟨state, cut⟩
      · intro boundary
        obtain ⟨state, cut⟩ := returns_sliceTo_iff.mpr (boundary (by omega))
        refine ⟨state, cut, ?_⟩
        split
        · exact returns_pure _
        · next byte found =>
            dsimp only
            split
            · exact returns_pure _
            · split
              · exact returns_pure _
              · next letter =>
                  rw [Bool.not_eq_true', Bool.not_eq_false] at letter
                  exact (returns_sliceFrom_class found letter).bind fun _ _ => returns_pure _

theorem returns_parseUgcSegment_iff (segment : Text) (currentPrefix : Option (Text × UgcClass))
    : Returns (parseUgcSegment segment currentPrefix) ↔ SegmentCuts segment := by
  rw [← returns_parseFullUgcSegment_iff]
  unfold parseUgcSegment ugcSegmentParts
  refine (returns_bind_of_total fun parts => ?_).trans (returns_bind_of_total fun full => ?_)
  · rcases parts with _ | ⟨state, geoclass, numeric⟩
    · exact returns_pure _
    · exact (returns_parseUgcNumericRanges numeric).bind fun _ _ => returns_pure _
  · cases full <;> exact returns_pure _

/-- Every segment of a block has its first two bytes in whole characters, up to the first one
that cannot be read.
-/
def SegmentsCut (currentPrefix : Option (Text × UgcClass)) : List Text → Prop
  | [] => True
  | segment :: rest =>
      if segment = [] then SegmentsCut currentPrefix rest
      else
        SegmentCuts (trim segment)
        ∧ ∀ codes next,
            parseUgcSegment (trim segment) currentPrefix = .ok (some (codes, next))
            → SegmentsCut (some next) rest

theorem returns_expandUgcSegments_iff (currentPrefix : Option (Text × UgcClass))
    (segments : List Text)
    : Returns (expandUgcSegments currentPrefix segments) ↔ SegmentsCut currentPrefix segments := by
  induction segments generalizing currentPrefix with
  | nil => exact iff_of_true (returns_pure _) trivial
  | cons segment rest ih =>
      rw [expandUgcSegments, SegmentsCut]
      split
      · exact ih currentPrefix
      · rw [returns_bind_iff, ← returns_parseUgcSegment_iff _ currentPrefix]
        constructor
        · rintro ⟨parsed, here, later⟩
          refine ⟨⟨parsed, here⟩, fun codes next read => ?_⟩
          obtain rfl := Except.ok.inj (here.symm.trans read)
          obtain ⟨others, more, -⟩ := returns_bind_iff.mp later
          exact (ih (some next)).mp ⟨others, more⟩
        · rintro ⟨⟨parsed, here⟩, later⟩
          refine ⟨parsed, here, ?_⟩
          rcases parsed with _ | ⟨codes, next⟩
          · exact returns_pure _
          · exact ((ih (some next)).mpr (later codes next here)).bind fun _ _ => returns_pure _

-----------------------------------------------------------------------------------------
-- Candidates
-----------------------------------------------------------------------------------------

/-- The texts that a candidate is joined to, up to its expiration time, have a suffix that may be
cut off.
-/
def JoinCuts (combined : Text) : List Text → Prop
  | [] => SuffixCuts combined
  | nextLine :: rest =>
      SuffixCuts combined
      ∧ (hasUgcExpirationSuffix combined = .ok false → trim nextLine ≠ []
        → ugcStartsNewSectionHeader (trim nextLine) = false
        → JoinCuts (combined ++ compactUgcText (trim nextLine)) rest)

/-- Joining comes back, by induction on the lines, and what it gives was tested. -/
theorem returns_joinUgcLines_iff (combined : Text) (lines : List Text)
    : Returns (joinUgcLines combined lines) ↔ JoinCuts combined lines := by
  induction lines generalizing combined with
  | nil =>
      rw [joinUgcLines, JoinCuts, ← returns_hasUgcExpirationSuffix_iff]
      exact returns_bind_of_total fun _ => returns_pure _
  | cons nextLine rest ih =>
      rw [joinUgcLines, JoinCuts, ← returns_hasUgcExpirationSuffix_iff, returns_bind_iff]
      constructor
      · rintro ⟨complete, here, later⟩
        refine ⟨⟨complete, here⟩, fun unfinished nonempty goesOn => ?_⟩
        obtain rfl := Except.ok.inj (here.symm.trans unfinished)
        dsimp only at later
        rw [if_neg Bool.false_ne_true, if_neg (by simp [nonempty, goesOn])] at later
        obtain ⟨joined, more, -⟩ := returns_bind_iff.mp later
        exact (ih _).mp ⟨joined, more⟩
      · rintro ⟨⟨complete, here⟩, later⟩
        refine ⟨complete, here, ?_⟩
        cases complete with
        | true => exact returns_pure _
        | false =>
            dsimp only
            rw [if_neg Bool.false_ne_true]
            split
            · exact returns_pure _
            · next goesOn =>
                rw [not_or, Bool.not_eq_true] at goesOn
                exact ((ih _).mpr (later here goesOn.1 goesOn.2)).bind fun _ _ => returns_pure _

theorem returns_suffix_of_join {combined joined : Text} {lines : List Text} {taken : Nat}
    (join : joinUgcLines combined lines = .ok (joined, taken))
    : Returns (hasUgcExpirationSuffix joined) := by
  induction lines generalizing combined taken with
  | nil =>
      rw [joinUgcLines] at join
      obtain ⟨complete, here, same⟩ := exceptBind_ok_iff.mp join
      obtain ⟨rfl, -⟩ := Prod.mk.inj (Except.ok.inj same)
      exact ⟨complete, here⟩
  | cons nextLine rest ih =>
      rw [joinUgcLines] at join
      obtain ⟨complete, here, later⟩ := exceptBind_ok_iff.mp join
      dsimp only at later
      split at later
      · obtain ⟨rfl, -⟩ := Prod.mk.inj (Except.ok.inj later)
        exact ⟨complete, here⟩
      · split at later
        · obtain ⟨rfl, -⟩ := Prod.mk.inj (Except.ok.inj later)
          exact ⟨complete, here⟩
        · obtain ⟨⟨whole, count⟩, more, same⟩ := exceptBind_ok_iff.mp later
          obtain ⟨rfl, -⟩ := Prod.mk.inj (Except.ok.inj same)
          exact ih more

section Sections

variable {F : Type} (calendar : Calendar) (locations : Locations F) (validTime : UtcTime)

theorem returns_parseExpireTime {digits : Text} (six : digits.length = 6)
    (all : digits.all Char.isDigit = true)
    : Returns (parseExpireTime calendar digits validTime) := by
  have ascii := isAscii_of_digits all
  have number {start stop : Nat} (order : start ≤ stop) (fits : stop ≤ 6)
      : Returns (sliceNumber start stop digits) := by
    rw [sliceNumber, ascii.slice_eq order (by omega)]
    exact returns_pure _
  unfold parseExpireTime
  split
  · exact returns_pure _
  · refine (number (by omega) (by omega)).bind fun day _ => ?_
    cases day with
    | none => exact returns_pure _
    | some day =>
        refine (number (by omega) (by omega)).bind fun hour _ => ?_
        cases hour with
        | none => exact returns_pure _
        | some hour =>
            refine (number (by omega) (by omega)).bind fun minute _ => ?_
            cases minute with
            | none => exact returns_pure _
            | some minute => exact returns_resolveDayTimeNotBefore _ _ _ _ _

/-- The segments in front of an expiration time may be cut. -/
def BlockCuts (text : Text) : Prop :=
  ∀ block digits, extractExpiration text = .ok (some (block, digits))
    → SegmentsCut none (block.splitOnP isUgcSeparator)

theorem returns_parseUgcCapture_iff {text : Text}
    (complete : hasUgcExpirationSuffix text = .ok true)
    : Returns (parseUgcCapture calendar locations text validTime) ↔ BlockCuts text := by
  obtain ⟨block, digits, rfl, six, all⟩ := exists_expiration complete
  have extracted := extractExpiration_complete complete six all
  have cuts : BlockCuts (block ++ '-' :: (digits ++ ['-']))
      ↔ SegmentsCut none (block.splitOnP isUgcSeparator) := by
    constructor
    · exact fun cuts => cuts block digits extracted
    · intro cut other suffix same
      obtain ⟨rfl, rfl⟩ := Prod.mk.inj (Option.some.inj (Except.ok.inj (extracted.symm.trans same)))
      exact cut
  rw [cuts, ← returns_expandUgcSegments_iff]
  unfold parseUgcCapture expandUgcBlock
  rw [extracted, ok_bind]
  refine (returns_bind_of_total fun codes => ?_).trans
    (returns_bind_of_total fun _ => returns_pure _)
  cases codes with
  | none => exact returns_pure _
  | some codes =>
      refine (returns_parseExpireTime calendar validTime six all).bind fun expires _ => ?_
      cases expires <;> exact returns_pure _

/-- The candidates of the lines may be cut wherever they are. -/
def CandidatesCut : (taken : Nat) → List Text → Prop
  | _, [] => True
  | taken + 1, _ :: rest => CandidatesCut taken rest
  | 0, line :: rest =>
      if isUgcStart line then
        JoinCuts (compactUgcText line) rest
        ∧ ∀ combined taken,
            joinUgcLines (compactUgcText line) rest = .ok (combined, taken)
            → BlockCuts combined ∧ CandidatesCut taken rest
      else CandidatesCut 0 rest

/-- The candidates are found and read, by induction on the lines. -/
theorem candidates_read_iff (taken : Nat) (lines : List Text)
    : (∃ candidates,
        ugcCandidatesFrom taken lines = .ok candidates
        ∧ ∀ candidate ∈ candidates,
            Returns (parseUgcCapture calendar locations candidate validTime))
      ↔ CandidatesCut taken lines := by
  induction lines generalizing taken with
  | nil => cases taken <;> exact iff_of_true ⟨[], rfl, by simp⟩ trivial
  | cons line rest ih =>
      cases taken with
      | succ taken => exact ih taken
      | zero =>
          rw [ugcCandidatesFrom, CandidatesCut]
          split
          · constructor
            · rintro ⟨candidates, run, reads⟩
              obtain ⟨⟨candidate, count⟩, collect, run⟩ := exceptBind_ok_iff.mp run
              obtain ⟨others, more, same⟩ := exceptBind_ok_iff.mp run
              obtain rfl := Except.ok.inj same
              obtain ⟨⟨combined, number⟩, join, tail⟩ := exceptBind_ok_iff.mp collect
              obtain ⟨complete, tested, same⟩ := exceptBind_ok_iff.mp tail
              obtain ⟨rfl, rfl⟩ := Prod.mk.inj (Except.ok.inj same)
              refine ⟨(returns_joinUgcLines_iff _ _).mp ⟨_, join⟩, fun whole stop again => ?_⟩
              obtain ⟨rfl, rfl⟩ := Prod.mk.inj (Except.ok.inj (join.symm.trans again))
              refine ⟨?_, (ih _).mp ⟨others, more, fun other member =>
                reads other (by simp [member])⟩⟩
              cases complete with
              | true =>
                  exact (returns_parseUgcCapture_iff calendar locations validTime tested).mp
                    (reads combined (by simp))
              | false =>
                  intro block digits extracted
                  rw [extractExpiration, tested] at extracted
                  cases extracted
            · rintro ⟨joins, cuts⟩
              obtain ⟨⟨combined, count⟩, join⟩ := (returns_joinUgcLines_iff _ _).mpr joins
              obtain ⟨complete, tested⟩ := returns_suffix_of_join join
              obtain ⟨blockCuts, later⟩ := cuts combined count join
              obtain ⟨others, more, reads⟩ := (ih count).mpr later
              refine ⟨(if complete then some combined else none).toList ++ others, ?_, ?_⟩
              · rw [collectUgcCandidate, join, ok_bind]
                dsimp only
                rw [tested, ok_bind]
                simp only [pure_bind, more, ok_bind]
                rfl
              · intro candidate member
                rcases List.mem_append.mp member with here | other
                · cases complete with
                  | true =>
                      obtain rfl := List.mem_singleton.mp here
                      exact (returns_parseUgcCapture_iff calendar locations validTime tested).mpr
                        blockCuts
                  | false => cases here
                · exact reads candidate other
          · exact ih 0

/-- What the sections of a text are cut at are characters. -/
def UgcCuts (text : Text) : Prop := CandidatesCut 0 (iterCandidateLines text)

/-- The sections of a text are read exactly if it may be cut where they are. -/
theorem returns_parseUgcSectionsWithIssues_iff (text : Text)
    : Returns (parseUgcSectionsWithIssues calendar locations text validTime) ↔ UgcCuts text := by
  rw [UgcCuts, ← candidates_read_iff calendar locations validTime, parseUgcSectionsWithIssues,
    returns_bind_iff]
  refine exists_congr fun candidates => and_congr_right fun _ => ?_
  rw [← returns_mapM_iff]
  exact returns_bind_of_total fun _ => returns_pure _

end Sections

end Emwin.Parser
