import Emwin.Library.Tokens
import Emwin.Parser.BodyEnrichment

/-! Bodies of ASCII are enriched, whatever they are: all that the extractors cut is of ASCII too,
and has a boundary at every byte.
-/

namespace Emwin.Parser
open Library

theorem isCharBoundary_of_ascii {text : Text} (ascii : IsAscii text) {offset : Nat}
    (fits : offset ≤ utf8Len text)
    : isCharBoundary offset text = true := by
  rw [ascii.utf8Len_eq] at fits
  exact returns_sliceTo_iff.mp ⟨_, ascii.sliceTo_eq fits⟩

theorem isAscii_trim {text : Text} (ascii : IsAscii text) : IsAscii (trim text) :=
  fun c member => ascii c (mem_of_mem_trim member)

theorem isAscii_compactUgcText {text : Text} (ascii : IsAscii text)
    : IsAscii (compactUgcText text) :=
  ascii.of_subset (List.filter_subset_self _)

theorem isAscii_trimEndWhile {text : Text} (ascii : IsAscii text) (drop : Char → Bool)
    : IsAscii (trimEndWhile drop text) := by
  intro c member
  rw [trimEndWhile, List.mem_reverse] at member
  exact ascii c (List.mem_reverse.mp ((List.dropWhile_sublist _).subset member))

/-- Lines are parts of their text, by induction on it. -/
theorem isAscii_linesFrom {line text : Text} (start : IsAscii line) (ascii : IsAscii text)
    : ∀ part ∈ linesFrom line text, IsAscii part := by
  induction text generalizing line with
  | nil =>
      rw [linesFrom]
      split
      · simp
      · simpa using start
  | cons c rest ih =>
      have one : IsAscii [c] := ascii.of_subset (by simp)
      have others : IsAscii rest := ascii.of_subset (List.subset_cons_self c rest)
      rw [linesFrom]
      split
      · intro part member
        rcases List.mem_cons.mp member with rfl | later
        · rw [stripReturn]
          split
          · exact start.of_subset (List.dropLast_subset line)
          · exact start
        · exact ih (by simp [IsAscii]) others part later
      · exact ih (start.append one) others

theorem isAscii_lines {text : Text} (ascii : IsAscii text) : ∀ line ∈ lines text, IsAscii line :=
  isAscii_linesFrom (by simp [IsAscii]) ascii

theorem isAscii_splitOnP {text : Text} (ascii : IsAscii text) (separates : Char → Bool)
    : ∀ piece ∈ text.splitOnP separates, IsAscii piece :=
  fun _ among c member => ascii c (mem_of_mem_splitOnP among member)

theorem isAscii_splitWhitespace {text : Text} (ascii : IsAscii text)
    : ∀ word ∈ splitWhitespace text, IsAscii word :=
  fun word member => isAscii_splitOnP ascii _ word (List.mem_of_mem_filter member)

-----------------------------------------------------------------------------------------
-- Areas
-----------------------------------------------------------------------------------------

theorem suffixCuts_of_ascii {text : Text} (ascii : IsAscii text) : SuffixCuts text :=
  fun _ _ => isCharBoundary_of_ascii ascii (Nat.sub_le _ _)

/-- Segments of ASCII, by induction on them. -/
theorem segmentsCut_of_ascii {segments : List Text} (ascii : ∀ segment ∈ segments, IsAscii segment)
    (currentPrefix : Option (Text × UgcClass))
    : SegmentsCut currentPrefix segments := by
  induction segments generalizing currentPrefix with
  | nil => trivial
  | cons segment rest ih =>
      have later := ih fun other member => ascii other (by simp [member])
      rw [SegmentsCut]
      split
      · exact later currentPrefix
      · refine ⟨fun long => ?_, fun codes next _ => later (some next)⟩
        exact isCharBoundary_of_ascii (isAscii_trim (ascii segment (by simp))) (by omega)

theorem joinCuts_of_ascii {combined : Text} {lines : List Text} (ascii : IsAscii combined)
    (all : ∀ line ∈ lines, IsAscii line)
    : JoinCuts combined lines := by
  induction lines generalizing combined with
  | nil => exact suffixCuts_of_ascii ascii
  | cons nextLine rest ih =>
      refine ⟨suffixCuts_of_ascii ascii, fun _ _ _ => ih (ascii.append ?_) ?_⟩
      · exact isAscii_compactUgcText (isAscii_trim (all nextLine (by simp)))
      · exact fun line member => all line (by simp [member])

theorem isAscii_joined {combined joined : Text} {lines : List Text} {taken : Nat}
    (ascii : IsAscii combined) (all : ∀ line ∈ lines, IsAscii line)
    (join : joinUgcLines combined lines = .ok (joined, taken))
    : IsAscii joined := by
  induction lines generalizing combined taken with
  | nil =>
      rw [joinUgcLines] at join
      obtain ⟨complete, -, same⟩ := exceptBind_ok_iff.mp join
      obtain ⟨rfl, -⟩ := Prod.mk.inj (Except.ok.inj same)
      exact ascii
  | cons nextLine rest ih =>
      rw [joinUgcLines] at join
      obtain ⟨complete, -, later⟩ := exceptBind_ok_iff.mp join
      dsimp only at later
      split at later
      · obtain ⟨rfl, -⟩ := Prod.mk.inj (Except.ok.inj later)
        exact ascii
      · split at later
        · obtain ⟨rfl, -⟩ := Prod.mk.inj (Except.ok.inj later)
          exact ascii
        · obtain ⟨⟨whole, count⟩, more, same⟩ := exceptBind_ok_iff.mp later
          obtain ⟨rfl, -⟩ := Prod.mk.inj (Except.ok.inj same)
          refine ih (ascii.append ?_) ?_ more
          · exact isAscii_compactUgcText (isAscii_trim (all nextLine (by simp)))
          · exact fun line member => all line (by simp [member])

theorem blockCuts_of_ascii {text : Text} (ascii : IsAscii text) : BlockCuts text := by
  intro block digits extracted
  unfold extractExpiration at extracted
  obtain ⟨complete, -, later⟩ := exceptBind_ok_iff.mp extracted
  split at later
  · cases later
  · obtain ⟨front, cut, later⟩ := exceptBind_ok_iff.mp later
    obtain ⟨back, -, same⟩ := exceptBind_ok_iff.mp later
    obtain ⟨rfl, -⟩ := Prod.mk.inj (Option.some.inj (Except.ok.inj same))
    obtain ⟨rest, rfl, -⟩ := sliceTo_eq_ok_iff.mp cut
    have part : IsAscii front := ascii.of_subset (List.subset_append_left _ _)
    exact segmentsCut_of_ascii (isAscii_splitOnP part _) none

/-- Candidates of ASCII, by induction on the lines. -/
theorem candidatesCut_of_ascii {lines : List Text} (all : ∀ line ∈ lines, IsAscii line)
    (taken : Nat)
    : CandidatesCut taken lines := by
  induction lines generalizing taken with
  | nil => cases taken <;> trivial
  | cons line rest ih =>
      have others : ∀ line ∈ rest, IsAscii line := fun line member => all line (by simp [member])
      cases taken with
      | succ taken => exact ih others taken
      | zero =>
          rw [CandidatesCut]
          split
          · have start := isAscii_compactUgcText (all line (by simp))
            refine ⟨joinCuts_of_ascii start others, fun combined count join => ?_⟩
            exact ⟨blockCuts_of_ascii (isAscii_joined start others join), ih others count⟩
          · exact ih others 0

theorem ugcCuts_of_ascii {text : Text} (ascii : IsAscii text) : UgcCuts text := by
  refine candidatesCut_of_ascii ?_ 0
  intro line member
  obtain ⟨whole, among, rfl⟩ := List.mem_map.mp member
  exact isAscii_trimEndWhile (isAscii_lines ascii whole among) _

-----------------------------------------------------------------------------------------
-- Storm motion
-----------------------------------------------------------------------------------------

section StormMotion

variable (F : Type) [Measure F]

theorem coordinateCuts_of_ascii {text : Text} (ascii : IsAscii text) (isLat : Bool)
    : CoordinateCuts F text isLat := by
  have digits : IsAscii ((trim text).dropWhile (· = '-')) :=
    (isAscii_trim ascii).of_subset (List.dropWhile_sublist _).subset
  have width := degreesDigits_le isLat
  refine ⟨fun _ => ?_, fun _ => ?_, fun _ => ⟨?_, fun _ _ => ?_⟩⟩ <;>
    exact isCharBoundary_of_ascii digits (by omega)

theorem packedCuts_of_ascii {token : Text} (ascii : IsAscii token) (normalized : List Text)
    : PackedCuts F normalized token := by
  intro eight _
  have length := ascii.utf8Len_eq
  have front : IsAscii (token.take 4) := ascii.of_subset (List.take_subset 4 token)
  have back : IsAscii (token.drop 4) := ascii.of_subset (List.drop_subset 4 token)
  refine ⟨token.take 4, token.drop 4, (List.take_append_drop 4 token).symm, ?_,
    coordinateCuts_of_ascii F front true, fun _ => coordinateCuts_of_ascii F back false⟩
  rw [front.utf8Len_eq, List.length_take]
  omega

/-- Words of ASCII are put together to one, by induction on the words. -/
theorem isAscii_of_consumeWords {accepts : Text → Bool} {token first word : Text}
    {rest : List Text} {taken : Nat} (ascii : IsAscii token)
    (all : ∀ other ∈ first :: rest, IsAscii other)
    (found : consumeWords accepts token first rest = some (word, taken))
    : IsAscii word := by
  have joined : IsAscii (token ++ trim first) :=
    ascii.append (isAscii_trim (all first (by simp)))
  induction rest generalizing token first taken with
  | nil =>
      rw [consumeWords] at found
      split at found
      · obtain ⟨rfl, -⟩ := Prod.mk.inj (Option.some.inj found)
        exact joined
      · cases found
  | cons next rest ih =>
      have others : ∀ other ∈ next :: rest, IsAscii other :=
        fun other member => all other (List.mem_cons_of_mem first member)
      rw [consumeWords] at found
      dsimp only at found
      split at found
      · split at found
        · obtain ⟨rfl, -⟩ := Prod.mk.inj (Option.some.inj found)
          exact joined
        · cases found
      · split at found
        · cases found
        · obtain ⟨⟨later, more⟩, inner, same⟩ := Option.map_eq_some_iff.mp found
          obtain ⟨rfl, -⟩ := Prod.mk.inj same
          exact ih joined others inner (joined.append (isAscii_trim (others next (by simp))))

theorem tokensCut_of_ascii {tokens : List Text} (all : ∀ token ∈ tokens, IsAscii token)
    (normalized : List Text) (taken : Nat)
    : TokensCut F normalized taken tokens := by
  induction tokens generalizing normalized taken with
  | nil => cases taken <;> trivial
  | cons first rest ih =>
      have others : ∀ token ∈ rest, IsAscii token :=
        fun token member => all token (by simp [member])
      cases taken with
      | succ taken => exact ih others normalized taken
      | zero =>
          intro token count found
          have word := isAscii_of_consumeWords (by simp [IsAscii]) all found
          exact ⟨packedCuts_of_ascii F word normalized, fun _ _ => ih others _ _⟩

/-- The tokens that are put together are of ASCII too, by induction on those that are left. -/
theorem isAscii_normalized {tokens normalized coordTokens : List Text} {taken : Nat}
    (all : ∀ token ∈ tokens, IsAscii token) (before : ∀ token ∈ normalized, IsAscii token)
    (read : normalizeTmlFrom (F := F) normalized taken tokens = .ok (some coordTokens))
    : ∀ token ∈ coordTokens, IsAscii token := by
  induction tokens generalizing normalized taken with
  | nil =>
      obtain rfl : normalized = coordTokens := by
        cases taken <;> exact Option.some.inj (Except.ok.inj read)
      exact before
  | cons first rest ih =>
      have others : ∀ token ∈ rest, IsAscii token :=
        fun token member => all token (by simp [member])
      cases taken with
      | succ taken => exact ih others before read
      | zero =>
          rw [normalizeTmlFrom] at read
          split at read
          · cases read
          · next token count found =>
              have word := isAscii_of_consumeWords (by simp [IsAscii]) all found
              obtain ⟨pair, packed, later⟩ := exceptBind_ok_iff.mp read
              rcases pair with _ | ⟨lat, lon⟩
              · refine ih others ?_ later
                intro other member
                rcases List.mem_append.mp member with old | new
                · exact before other old
                · exact List.mem_singleton.mp new ▸ word
              · have halves : IsAscii lat ∧ IsAscii lon := by
                  unfold tmlSplitPackedCoordinatePair at packed
                  split at packed
                  · cases packed
                  · obtain ⟨front, left, packed⟩ := exceptBind_ok_iff.mp packed
                    obtain ⟨back, right, packed⟩ := exceptBind_ok_iff.mp packed
                    obtain ⟨readsLat, -, packed⟩ := exceptBind_ok_iff.mp packed
                    obtain ⟨tail, rfl, four⟩ := sliceTo_eq_ok_iff.mp left
                    have rest' := sliceFrom_append front tail
                    rw [four, right] at rest'
                    obtain rfl := Except.ok.inj rest'
                    have parts : IsAscii front ∧ IsAscii back :=
                      ⟨word.of_subset (List.subset_append_left _ _),
                        word.of_subset (List.subset_append_right _ _)⟩
                    cases readsLat with
                    | false => cases packed
                    | true =>
                        obtain ⟨readsLon, -, packed⟩ := exceptBind_ok_iff.mp packed
                        cases readsLon with
                        | false => cases packed
                        | true =>
                            obtain ⟨rfl, rfl⟩ :=
                              Prod.mk.inj (Option.some.inj (Except.ok.inj packed))
                            exact parts
                exact ih others (forall_mem_append_pair before halves.1 halves.2) later

theorem pointsCut_of_ascii {tokens : List Text} (all : ∀ token ∈ tokens, IsAscii token)
    : PointsCut F tokens := by
  fun_induction PointsCut F tokens with
  | case1 latToken lonToken rest ih =>
      exact ⟨coordinateCuts_of_ascii F (all latToken (by simp)) true,
        fun _ => ⟨coordinateCuts_of_ascii F (all lonToken (by simp)) false,
          fun _ => ih fun token member => all token (by simp [member])⟩⟩
  | case2 tokens few => trivial

theorem entryCuts_of_ascii {tokens : List Text} (all : ∀ token ∈ tokens, IsAscii token)
    : EntryCuts F tokens := by
  refine ⟨tokensCut_of_ascii F all [] 0, fun coordTokens read => ?_⟩
  have words := isAscii_normalized F all (by simp) read
  refine pointsCut_of_ascii F ?_
  split
  · exact fun token member => words token (List.mem_of_mem_dropLast member)
  · exact words

/-- The tokens behind a number are among those before it. -/
theorem mem_of_numberWithUnit {unit token : Text} {tokens rest : List Text} {value : Option Nat}
    (read : numberWithUnit unit tokens = (value, rest)) (member : token ∈ rest)
    : token ∈ tokens := by
  unfold numberWithUnit at read
  repeat' split at read
  all_goals
    obtain ⟨-, rfl⟩ := Prod.mk.inj read
    simp_all

theorem lineCuts_of_ascii {raw : Text} (ascii : IsAscii raw) (calendar : Calendar)
    (referenceTime : UtcTime)
    : LineCuts F calendar referenceTime raw := by
  intro marker timeToken timeUtc tokens direction later speed coordinates words _ _ degrees speeds
  refine entryCuts_of_ascii F fun token member => ?_
  have among := mem_of_numberWithUnit degrees (mem_of_numberWithUnit speeds member)
  refine isAscii_splitWhitespace (isAscii_trim ascii) token ?_
  rw [words]
  simp [among]

/-- The text that a candidate is joined to, by induction on the lines. -/
theorem isAscii_joinedTml {raw joined : Text} {lines : List Text} {taken : Nat}
    (ascii : IsAscii raw) (all : ∀ line ∈ lines, IsAscii line)
    (join : joinTmlLines raw lines = .ok (joined, taken))
    : IsAscii joined := by
  induction lines generalizing raw taken with
  | nil =>
      obtain ⟨rfl, -⟩ := Prod.mk.inj (Except.ok.inj join)
      exact ascii
  | cons line rest ih =>
      have more : IsAscii ((if raw = [] then raw else raw ++ [' ']) ++ trim line) := by
        refine IsAscii.append ?_ (isAscii_trim (all line (by simp)))
        split
        · exact ascii
        · exact ascii.append (by decide)
      rw [joinTmlLines] at join
      dsimp only at join
      split at join
      · obtain ⟨rfl, -⟩ := Prod.mk.inj (Except.ok.inj join)
        exact ascii
      · generalize (if raw = [] then raw else raw ++ [' ']) ++ trim line = longer at join more
        obtain ⟨parseable, -, later⟩ := exceptBind_ok_iff.mp join
        split at later
        · obtain ⟨rfl, -⟩ := Prod.mk.inj (Except.ok.inj later)
          exact more
        · obtain ⟨⟨whole, count⟩, inner, same⟩ := exceptBind_ok_iff.mp later
          obtain ⟨rfl, -⟩ := Prod.mk.inj (Except.ok.inj same)
          exact ih more (fun other member => all other (by simp [member])) inner

/-- The candidates of lines of ASCII, by induction on the lines. -/
theorem isAscii_tmlCandidates {lines : List Text} {taken : Nat}
    {candidates : List TimeMotLocCandidate} (all : ∀ line ∈ lines, IsAscii line)
    (found : tmlCandidatesFrom taken lines = .ok candidates)
    : ∀ candidate ∈ candidates, IsAscii candidate.raw := by
  induction lines generalizing taken candidates with
  | nil =>
      obtain rfl : [] = candidates := by cases taken <;> exact Except.ok.inj found
      simp
  | cons line rest ih =>
      have others : ∀ line ∈ rest, IsAscii line := fun other member => all other (by simp [member])
      cases taken with
      | succ taken => exact ih others found
      | zero =>
          rw [tmlCandidatesFrom] at found
          split at found
          · exact ih others found
          · obtain ⟨⟨raw, count⟩, collected, found⟩ := exceptBind_ok_iff.mp found
            obtain ⟨later, more, same⟩ := exceptBind_ok_iff.mp found
            obtain rfl := Except.ok.inj same
            obtain ⟨start, cut, collected⟩ := exceptBind_ok_iff.mp collected
            obtain ⟨⟨joined, number⟩, join, collected⟩ := exceptBind_ok_iff.mp collected
            obtain ⟨parseable, -, same⟩ := exceptBind_ok_iff.mp collected
            obtain ⟨rfl, rfl⟩ := Prod.mk.inj (Except.ok.inj same)
            intro candidate member
            rcases List.mem_append.mp member with here | other
            · cases parseable with
              | false => cases here
              | true =>
                  obtain rfl := List.mem_singleton.mp here
                  obtain ⟨front, rfl, -⟩ := sliceFrom_eq_ok_iff.mp cut
                  have tail : IsAscii start :=
                    (all (front ++ start) (by simp)).of_subset (List.subset_append_right _ _)
                  exact isAscii_joinedTml (isAscii_trim tail) others join
            · exact ih others more candidate other

theorem timeMotLocCuts_of_ascii {text : Text} (ascii : IsAscii text) (calendar : Calendar)
    (referenceTime : UtcTime)
    : TimeMotLocCuts F calendar referenceTime text :=
  fun _ found candidate member =>
    lineCuts_of_ascii F (isAscii_tmlCandidates (isAscii_lines ascii) found candidate member)
      calendar referenceTime

end StormMotion

-----------------------------------------------------------------------------------------
-- Segments
-----------------------------------------------------------------------------------------

section Segments

variable {F : Type} {externals : Externals F} {state : SplitState}

/-- The lines and the segments of a split are of ASCII. -/
structure AsciiSplit (state : SplitState) : Prop where
  current : ∀ line ∈ state.current, IsAscii line
  segments : ∀ segment ∈ state.segments, IsAscii segment

/-- Joined lines have nothing but the lines and line feeds, by induction on them. -/
theorem isAscii_joinLines {lines : List Text} (all : ∀ line ∈ lines, IsAscii line)
    : IsAscii (joinLines lines) := by
  unfold joinLines
  induction lines with
  | nil => simp [IsAscii]
  | cons first rest ih =>
      cases rest with
      | nil => simpa [List.intercalate] using all
      | cons second rest =>
          rw [List.intercalate_cons_cons]
          refine ((all first (by simp)).append (by decide)).append (ih ?_)
          exact fun line member => all line (List.mem_cons_of_mem first member)

theorem AsciiSplit.push (ascii : AsciiSplit state) {pushed : SplitState}
    (run : pushVtecSegment externals state = .ok pushed)
    : AsciiSplit pushed := by
  by_cases empty : state.current = []
  · rw [pushVtecSegment, if_pos empty] at run
    obtain rfl := Except.ok.inj run
    exact ascii
  · rw [pushVtecSegment_ok empty] at run
    obtain rfl := Except.ok.inj run
    refine ⟨by simp, fun segment member => ?_⟩
    rcases List.mem_append.mp member with old | new
    · exact ascii.segments segment old
    · split at new
      · cases new
      · exact List.mem_singleton.mp new ▸ isAscii_joinLines ascii.current

theorem AsciiSplit.flush (ascii : AsciiSplit state) {flushed : SplitState}
    (run : flushSegment externals state = .ok flushed)
    : AsciiSplit flushed := by
  obtain ⟨pushed, closed, same⟩ := exceptBind_ok_iff.mp run
  obtain rfl := Except.ok.inj same
  exact ⟨(ascii.push closed).current, (ascii.push closed).segments⟩

/-- A line is added to the open segment or skipped. -/
theorem addLine_cases {trimmed : Text} {next : SplitState}
    (run : addLine externals state trimmed = .ok next)
    : next = state
      ∨ next.segments = state.segments ∧ next.current = state.current ++ [trimmed] := by
  obtain ⟨content, looked⟩ := returns_looksLikeEventContent externals trimmed
  unfold addLine at run
  rw [looked, lineHasVtec_eq] at run
  by_cases closed : state.current = []
  · rw [if_pos closed] at run
    cases content with
    | false => exact .inl (Except.ok.inj run).symm
    | true =>
        by_cases blank : trim trimmed = []
        · simp [Functor.map, Except.map, blank, closed, pure, Except.pure] at run
          exact .inl run.symm
        · simp [Functor.map, Except.map, blank, closed, pure, Except.pure] at run
          obtain rfl := run
          exact .inr ⟨rfl, by simp [closed]⟩
  · rw [if_neg closed] at run
    simp [closed, pure, Except.pure] at run
    obtain rfl := run
    exact .inr ⟨rfl, rfl⟩

theorem AsciiSplit.add (ascii : AsciiSplit state) {trimmed : Text} (line : IsAscii trimmed)
    {next : SplitState} (run : addLine externals state trimmed = .ok next)
    : AsciiSplit next := by
  rcases addLine_cases run with rfl | ⟨segments, current⟩
  · exact ascii
  · refine ⟨fun other member => ?_, segments ▸ ascii.segments⟩
    rw [current] at member
    rcases List.mem_append.mp member with old | new
    · exact ascii.current other old
    · exact List.mem_singleton.mp new ▸ line

theorem AsciiSplit.step (ascii : AsciiSplit state) {line : Text} (plain : IsAscii line)
    {next : SplitState} (run : splitStep externals state line = .ok next)
    : AsciiSplit next := by
  have trimmed : IsAscii (trimEnd line) := isAscii_trimEndWhile plain _
  unfold splitStep at run
  dsimp only at run
  split at run
  · exact ascii.flush run
  · obtain ⟨boundary, -, run⟩ := exceptBind_ok_iff.mp run
    cases boundary with
    | true =>
        obtain ⟨flushed, closed, run⟩ := exceptBind_ok_iff.mp run
        exact (ascii.flush closed).add trimmed run
    | false => exact ascii.add trimmed run

/-- All lines of a split, by induction on them. -/
theorem AsciiSplit.run (ascii : AsciiSplit state) {lines : List Text}
    (all : ∀ line ∈ lines, IsAscii line) {last : SplitState}
    (run : lines.foldlM (splitStep externals) state = .ok last)
    : AsciiSplit last := by
  induction lines generalizing state with
  | nil =>
      obtain rfl := Except.ok.inj run
      exact ascii
  | cons line rest ih =>
      rw [List.foldlM_cons] at run
      obtain ⟨next, step, run⟩ := exceptBind_ok_iff.mp run
      exact ih (ascii.step (all line (by simp)) step)
        (fun other member => all other (by simp [member])) run

theorem isAscii_segments {text : Text} (ascii : IsAscii text) {rawSegments : List Text}
    (split : splitVtecSegments externals text = .ok rawSegments)
    : ∀ raw ∈ rawSegments, IsAscii raw := by
  have normalized : IsAscii (normalizeReturns text) :=
    ascii.of_subset (List.filter_subset_self _)
  obtain ⟨last, run, split⟩ := exceptBind_ok_iff.mp split
  obtain ⟨pushed, closed, same⟩ := exceptBind_ok_iff.mp split
  obtain rfl := Except.ok.inj same
  have start : AsciiSplit {} := ⟨by simp, by simp⟩
  exact ((start.run (isAscii_lines normalized) run).push closed).segments

variable [Measure F] (externals)

/-- Bodies of ASCII are enriched. -/
theorem enrichBody_of_ascii (catalog : List TextProductCatalogEntry) {text : Text}
    (ascii : IsAscii text) (pil : Text) (referenceTime : Option UtcTime)
    : Returns (enrichBody externals catalog text pil referenceTime) := by
  unfold enrichBody
  split
  · exact returns_pure _
  · next plan found =>
      refine Returns.bind ?_ fun _ _ => returns_pure _
      refine (returns_enrichBodyFromPlan_iff externals text plan referenceTime).mpr ?_
      intro extractor _ time _
      cases extractor with
      | vtecEvents =>
          intro rawSegments split raw member _
          have part := isAscii_segments ascii split raw member
          exact ⟨ugcCuts_of_ascii part, timeMotLocCuts_of_ascii F part _ _⟩
      | ugc => exact ugcCuts_of_ascii ascii
      | latLon => trivial
      | timeMotLoc => exact timeMotLocCuts_of_ascii F ascii _ _
      | windHail => trivial

end Segments

theorem zoneBlock_enriched
    : IsAscii "NEC001-051300-".toList
      ∧ Returns (enrichBody bareExternals zoneCatalog "NEC001-051300-".toList "ZFP".toList
          (some 0)) := by
  have ascii : IsAscii "NEC001-051300-".toList := by decide
  exact ⟨ascii, enrichBody_of_ascii bareExternals zoneCatalog ascii "ZFP".toList (some 0)⟩

end Emwin.Parser
