import Emwin.Library.Replacements
import Emwin.Qbt.Relay.Auth

/-! The logon parser over whole sequences of chunks: when it panics, and when it reads the message
that was sent.
-/

namespace Emwin.Qbt.AuthParser
open Library

/-- Consume chunks one after another: the result of every call and the parser after it. No outcomes
mean that a call panicked.
-/
def consumeAll (parser : AuthParser) : List Bytes → Option (List (Option Text × AuthParser))
  | [] => some []
  | wire :: rest => do
      let outcome ← parser.consume wire
      let later ← outcome.2.consumeAll rest
      return outcome :: later

/-- Every chunk fits what the chunks before it left. -/
def FitsAll (parser : AuthParser) : List Bytes → Prop
  | [] => True
  | wire :: rest => parser.Fits wire ∧ ∀ outcome ∈ parser.consume wire, outcome.2.FitsAll rest

variable {parser : AuthParser} {chunks : List Bytes}

theorem consumeAll_cons {wire : Bytes} {outcomes : List (Option Text × AuthParser)}
    : parser.consumeAll (wire :: chunks) = some outcomes
      ↔ ∃ outcome later,
          parser.consume wire = some outcome
          ∧ outcome.2.consumeAll chunks = some later
          ∧ outcomes = outcome :: later := by
  simp only [consumeAll, bind, Option.bind_eq_some_iff, pure, Option.some.injEq]
  constructor
  · rintro ⟨outcome, consumed, later, rest, rfl⟩
    exact ⟨outcome, later, consumed, rest, rfl⟩
  · rintro ⟨outcome, later, consumed, rest, rfl⟩
    exact ⟨outcome, consumed, later, rest, rfl⟩

/-- No call panics exactly if every chunk fits, by induction on the chunks. -/
theorem consumeAll_isSome_iff (parser : AuthParser) (chunks : List Bytes)
    : (∃ outcomes, parser.consumeAll chunks = some outcomes) ↔ parser.FitsAll chunks := by
  induction chunks generalizing parser with
  | nil => simp [consumeAll, FitsAll]
  | cons wire chunks ih =>
      rw [FitsAll, ← consume_isSome_iff]
      constructor
      · rintro ⟨outcomes, run⟩
        obtain ⟨outcome, later, consumed, rest, -⟩ := consumeAll_cons.mp run
        refine ⟨by simp [consumed], fun other again => ?_⟩
        obtain rfl := Option.some.inj (consumed.symm.trans again)
        exact (ih _).mp ⟨later, rest⟩
      · rintro ⟨fits, others⟩
        obtain ⟨outcome, consumed⟩ := Option.isSome_iff_exists.mp fits
        obtain ⟨later, rest⟩ := (ih _).mpr (others outcome consumed)
        exact ⟨_, consumeAll_cons.mpr ⟨outcome, later, consumed, rest, rfl⟩⟩

-----------------------------------------------------------------------------------------
-- What is kept
-----------------------------------------------------------------------------------------

/-- The text of a call is the end of the text so far, within the limit. -/
theorem keepTail_eq {text kept : Text} (tail : keepTail text = some kept)
    : kept <:+ text ∧ utf8Len kept ≤ authTextLimit := by
  unfold keepTail at tail
  split at tail
  · next long =>
      obtain ⟨⟨front, back⟩, split, rfl⟩ := Option.map_eq_some_iff.mp tail
      obtain ⟨rfl, length⟩ := splitOff_eq_some split
      rw [utf8Len_append] at length long
      exact ⟨List.suffix_append _ _, by dsimp only; omega⟩
  · next short =>
      obtain rfl := Option.some.inj tail
      exact ⟨List.suffix_rfl, by omega⟩

theorem takeLogon_suffix (text : Text)
    : (takeLogon text).2.decodedText <:+ text := by
  unfold takeLogon
  split
  · exact List.suffix_rfl
  · dsimp only
    split
    · exact List.suffix_rfl
    · exact List.drop_suffix _ _

theorem consume_eq {wire : Bytes} {outcome : Option Text × AuthParser}
    (consumed : parser.consume wire = some outcome)
    : ∃ kept,
        kept <:+ parser.decodedText ++ fromUtf8Lossy (xorFf wire)
        ∧ utf8Len kept ≤ authTextLimit
        ∧ takeLogon kept = outcome := by
  obtain ⟨kept, tail, taken⟩ := Option.map_eq_some_iff.mp consumed
  obtain ⟨inside, bound⟩ := keepTail_eq tail
  exact ⟨kept, inside, bound, taken⟩

/-- After every call the text is within the limit, by induction on the chunks. -/
theorem consumeAll_length_le {outcomes : List (Option Text × AuthParser)}
    (run : parser.consumeAll chunks = some outcomes)
    : ∀ outcome ∈ outcomes, utf8Len outcome.2.decodedText ≤ authTextLimit := by
  induction chunks generalizing parser outcomes with
  | nil =>
      obtain rfl := Option.some.inj run
      simp
  | cons wire chunks ih =>
      obtain ⟨outcome, later, consumed, rest, rfl⟩ := consumeAll_cons.mp run
      obtain ⟨kept, -, bound, rfl⟩ := consume_eq consumed
      intro found member
      rcases List.mem_cons.mp member with rfl | member
      · exact (utf8Len_suffix (takeLogon_suffix kept)).trans bound
      · exact ih rest found member

-----------------------------------------------------------------------------------------
-- Messages cut between characters
-----------------------------------------------------------------------------------------

/-- An e-mail address that the message can carry: trimmed, not blank, and without the text that
ends the message.
-/
structure Sendable (email : Text) : Prop where
  trimmed : trim email = email
  nonblank : email ≠ []
  unambiguous : ¬ logonSuffix <:+: email

variable {email : Text}

/-- Before the end of a message its suffix does not occur. -/
theorem logonSuffix_absent (sendable : Sendable email) {part : Text}
    (inside : part <+: email ++ logonSuffix) (unfinished : part ≠ email ++ logonSuffix)
    : ¬ logonSuffix <:+: part := by
  intro found
  have ending : email ++ logonSuffix = email ++ ['|', 'V'] ++ ['2'] := by simp [logonSuffix]
  rw [ending] at inside unfinished
  have short : part <+: email ++ ['|', 'V'] :=
    (List.prefix_concat_iff.mp inside).resolve_left unfinished
  obtain ⟨front, back, same⟩ := found.trans short.isInfix
  -- the last character of the suffix is not one of the two behind the address
  have cut : front ++ ['|', 'V'] ++ '2' :: back = email ++ ['|', 'V'] := by
    rw [← same]
    simp [logonSuffix]
  rcases List.append_eq_append_iff.mp cut with ⟨more, inside, behind⟩ | ⟨more, -, behind⟩
  · cases more with
    | nil => simp at behind
    | cons first more =>
        obtain ⟨rfl, -⟩ := List.cons.inj behind
        refine sendable.unambiguous ⟨front, more, ?_⟩
        rw [inside]
        simp [logonSuffix]
  · have member : '2' ∈ ['|', 'V'] := by simp [behind]
    exact absurd member (by decide)

theorem logonSuffix_first (sendable : Sendable email)
    : windowPosition logonSuffix (email ++ logonSuffix) = some email.length := by
  obtain ⟨index, found, bound⟩ := windowPosition_le logonSuffix email []
  rw [List.append_nil] at found
  rcases Nat.lt_or_ge index email.length with earlier | last
  · have cut : (email ++ logonSuffix).take (index + 3) ++ (email ++ logonSuffix).drop (index + 3)
        = email ++ logonSuffix := List.take_append_drop _ _
    have length : (email ++ logonSuffix).length = email.length + 3 := by simp [logonSuffix]
    have early := found
    rw [← cut] at early
    refine absurd (infix_of_windowPosition early ?_)
      (logonSuffix_absent sendable (List.take_prefix _ _) ?_)
    · rw [List.length_take, length]
      simp only [logonSuffix]
      change index + 3 ≤ _
      omega
    · intro same
      have equal := congrArg List.length same
      rw [List.length_take, length] at equal
      omega
  · rw [found, le_antisymm bound last]

/-- A message that has not arrived as a whole stays in the parser. -/
theorem takeLogon_unfinished (sendable : Sendable email) {text : Text}
    (inside : text <+: buildLogonMessage email) (unfinished : text ≠ buildLogonMessage email)
    : takeLogon text = (none, ⟨text⟩) := by
  unfold takeLogon
  rcases List.prefix_or_prefix_of_prefix inside
    (show logonPrefix <+: buildLogonMessage email by simp [buildLogonMessage]) with short | long
  · by_cases whole : text = logonPrefix
    · subst whole
      decide
    · have missing : windowPosition logonPrefix text = none := by
        rw [windowPosition_eq_none_iff]
        intro found
        exact whole (short.eq_of_length (le_antisymm short.length_le found.length_le))
      rw [missing]
  · obtain ⟨part, rfl⟩ := long
    have part_prefix : part <+: email ++ logonSuffix := by
      rw [buildLogonMessage, List.append_assoc] at inside
      exact (List.prefix_append_right_inj _).mp inside
    have missing : windowPosition logonSuffix part = none := by
      rw [windowPosition_eq_none_iff]
      refine logonSuffix_absent sendable part_prefix fun same => unfinished ?_
      rw [same, buildLogonMessage, List.append_assoc]
    rw [windowPosition_of_start (List.prefix_append _ _)]
    simp [missing]

theorem parseLogonMessage_build (sendable : Sendable email)
    : parseLogonMessage (buildLogonMessage email) = some { email } := by
  have front : logonPrefix.isPrefixOf? (buildLogonMessage email) = some (email ++ logonSuffix) := by
    rw [List.isPrefixOf?_eq_some_iff_append_eq, buildLogonMessage, List.append_assoc]
  have back : logonSuffix.isSuffixOf? (email ++ logonSuffix) = some email :=
    List.isSuffixOf?_eq_some_iff_append_eq.mpr rfl
  simp [parseLogonMessage, front, back, sendable.trimmed, sendable.nonblank]

theorem takeLogon_whole (sendable : Sendable email)
    : takeLogon (buildLogonMessage email) = (some email, ⟨[]⟩) := by
  have start : windowPosition logonPrefix (buildLogonMessage email) = some 0 :=
    windowPosition_of_start (by simp [buildLogonMessage])
  have behind : (buildLogonMessage email).drop logonPrefix.length = email ++ logonSuffix := by
    rw [buildLogonMessage, List.append_assoc, List.drop_left]
  have length : logonPrefix.length + email.length + logonSuffix.length
      = (buildLogonMessage email).length := by
    simp [buildLogonMessage]
    omega
  unfold takeLogon
  rw [start]
  simp only [Nat.zero_add, behind, logonSuffix_first sendable, length, List.take_length,
    List.drop_zero, List.drop_length, parseLogonMessage_build sendable, Option.map_some]

theorem consume_within {wire : Bytes} {piece : Text} (whole : xorFf wire = toUtf8 piece)
    (bound : utf8Len (parser.decodedText ++ piece) ≤ authTextLimit)
    : parser.consume wire = some (takeLogon (parser.decodedText ++ piece)) := by
  rw [consume, whole, fromUtf8Lossy_toUtf8, keepTail, if_neg (by omega)]
  rfl

/-- Exactly one call returns an address, the first one after which the whole message has
arrived.
-/
def LogonRead (email : Text) (parser : AuthParser) (chunks : List Bytes) : Prop :=
  ∃ before last after outcomes,
    chunks = before ++ last :: after ∧ last ≠ [] ∧ (∀ chunk ∈ after, chunk = [])
    ∧ parser.consumeAll chunks = some outcomes
    ∧ outcomes.map Prod.fst = before.map (fun _ => none) ++ some email :: after.map fun _ => none

/-- Every chunk holds whole characters, so that no cut falls inside one. -/
def WholeCharacters (chunks : List Bytes) : Prop :=
  ∀ chunk ∈ chunks, ∃ piece, xorFf chunk = toUtf8 piece

/-- Empty chunks leave an empty parser as it is, by induction on them. -/
theorem consumeAll_empties (empties : ∀ chunk ∈ chunks, chunk = [])
    : ∃ outcomes,
        consumeAll ⟨[]⟩ chunks = some outcomes
        ∧ outcomes.map Prod.fst = chunks.map fun _ => none := by
  induction chunks with
  | nil => exact ⟨[], rfl, rfl⟩
  | cons chunk chunks ih =>
      obtain ⟨outcomes, run, results⟩ := ih fun other member => empties other (by simp [member])
      obtain rfl := empties chunk (by simp)
      exact ⟨_, consumeAll_cons.mpr ⟨(none, ⟨[]⟩), outcomes, rfl, run, rfl⟩, by simp [results]⟩

/-- The rest of a message is read with its last character, by induction on the chunks. -/
theorem logonRead_rest (sendable : Sendable email) {seen rest : Text}
    (message : seen ++ rest = buildLogonMessage email) (more : rest ≠ [])
    (bound : utf8Len (buildLogonMessage email) ≤ authTextLimit)
    (characters : WholeCharacters chunks) (sent : (chunks.map xorFf).flatten = toUtf8 rest)
    : LogonRead email ⟨seen⟩ chunks := by
  induction chunks generalizing seen rest with
  | nil => exact absurd (toUtf8_injective (show toUtf8 rest = toUtf8 [] from sent.symm)) more
  | cons chunk chunks ih =>
      obtain ⟨piece, decoded⟩ := characters chunk (by simp)
      rw [List.map_cons, List.flatten_cons, decoded] at sent
      have split := toUtf8_rest sent.symm
      generalize fromUtf8Lossy (chunks.map xorFf).flatten = later at split
      obtain rfl : rest = piece ++ later := by
        apply toUtf8_injective
        rw [← sent, split, toUtf8_append]
      rw [← List.append_assoc] at message
      have within : utf8Len (seen ++ piece) ≤ authTextLimit := by
        rw [← message, utf8Len_append] at bound
        omega
      have consumed : consume ⟨seen⟩ chunk = some (takeLogon (seen ++ piece)) :=
        consume_within decoded within
      by_cases last : later = []
      · subst last
        rw [List.append_nil] at message more
        have empties : ∀ other ∈ chunks, other = [] := by
          intro other member
          have none := List.flatten_eq_nil_iff.mp split (xorFf other) (List.mem_map_of_mem member)
          exact List.map_eq_nil_iff.mp none
        obtain ⟨outcomes, run, results⟩ := consumeAll_empties empties
        rw [message, takeLogon_whole sendable] at consumed
        refine ⟨[], chunk, chunks, (some email, ⟨[]⟩) :: outcomes, rfl, ?_, empties, ?_, ?_⟩
        · rintro rfl
          exact more (toUtf8_injective (show toUtf8 piece = toUtf8 [] from decoded.symm))
        · exact consumeAll_cons.mpr ⟨_, outcomes, consumed, run, rfl⟩
        · simp [results]
      · have unfinished : seen ++ piece ≠ buildLogonMessage email := by
          intro same
          rw [← same] at message
          exact last (by simpa using message)
        rw [takeLogon_unfinished sendable ⟨later, message⟩ unfinished] at consumed
        obtain ⟨before, final, after, outcomes, rfl, nonempty, empties, run, results⟩ :=
          ih message last (fun other member => characters other (by simp [member])) split
        refine ⟨chunk :: before, final, after, (none, ⟨seen ++ piece⟩) :: outcomes, rfl, nonempty,
          empties, ?_, by simp [results]⟩
        exact consumeAll_cons.mpr ⟨_, outcomes, consumed, run, rfl⟩

-----------------------------------------------------------------------------------------
-- Messages cut inside a character
-----------------------------------------------------------------------------------------

theorem parseLogonMessage_some {payload : Text} {read : QbtAuthMessage}
    (parsed : parseLogonMessage (logonPrefix ++ payload ++ logonSuffix) = some read)
    : trim payload = read.email := by
  have front : logonPrefix.isPrefixOf? (logonPrefix ++ payload ++ logonSuffix)
      = some (payload ++ logonSuffix) := by
    rw [List.isPrefixOf?_eq_some_iff_append_eq, List.append_assoc]
  have back : logonSuffix.isSuffixOf? (payload ++ logonSuffix) = some payload :=
    List.isSuffixOf?_eq_some_iff_append_eq.mpr rfl
  simp only [parseLogonMessage, front, back, Option.bind_eq_bind, Option.bind_some] at parsed
  split at parsed
  · cases parsed
  · rw [← Option.some.inj parsed]

/-- An address comes from between the two ends of a message in the text. -/
theorem takeLogon_some {text : Text} {after : AuthParser}
    (taken : takeLogon text = (some email, after))
    : ∃ front payload back,
        text = front ++ logonPrefix ++ payload ++ logonSuffix ++ back
        ∧ trim payload = email := by
  unfold takeLogon at taken
  cases start : windowPosition logonPrefix text with
  | none => simp [start] at taken
  | some index =>
      obtain ⟨split, long⟩ := windowPosition_split start
      cases stop : windowPosition logonSuffix (text.drop (index + logonPrefix.length)) with
      | none => simp [start, stop] at taken
      | some length =>
          obtain ⟨again, longer⟩ := windowPosition_split stop
          obtain ⟨front, payload, back, whole, rfl, rfl⟩
              : ∃ front payload back : Text,
                  text = front ++ (logonPrefix ++ payload ++ logonSuffix) ++ back
                  ∧ front.length = index ∧ payload.length = length := by
            refine ⟨text.take index, (text.drop (index + logonPrefix.length)).take length,
              (text.drop (index + logonPrefix.length)).drop (length + logonSuffix.length), ?_,
              List.length_take_of_le (by omega), List.length_take_of_le (by omega)⟩
            refine split.trans ((congrArg (text.take index ++ logonPrefix ++ ·) again).trans ?_)
            simp only [List.append_assoc]
          have message : (text.take (front.length + logonPrefix.length + payload.length
              + logonSuffix.length)).drop front.length
              = logonPrefix ++ payload ++ logonSuffix := by
            have size : front.length + logonPrefix.length + payload.length + logonSuffix.length
                = (front ++ (logonPrefix ++ payload ++ logonSuffix)).length := by
              simp only [List.length_append]
              omega
            rw [whole, size, List.take_left, List.drop_left]
          simp only [start, stop, message, Prod.mk.injEq, Option.map_eq_some_iff] at taken
          obtain ⟨⟨read, parsed, rfl⟩, -⟩ := taken
          exact ⟨front, payload, back, by rw [whole]; simp, parseLogonMessage_some parsed⟩

/-- An address that a call returns stands in what was decoded so far, between the two ends of a
message; by induction on the chunks.
-/
theorem consumeAll_some {seen : Text} {outcomes : List (Option Text × AuthParser)}
    {after : AuthParser} (kept : parser.decodedText <:+ seen)
    (run : parser.consumeAll chunks = some outcomes) (returned : (some email, after) ∈ outcomes)
    : ∃ front payload back,
        seen ++ (chunks.map fun wire => fromUtf8Lossy (xorFf wire)).flatten
          = front ++ logonPrefix ++ payload ++ logonSuffix ++ back
        ∧ trim payload = email := by
  induction chunks generalizing parser seen outcomes with
  | nil =>
      obtain rfl := Option.some.inj run
      cases returned
  | cons wire chunks ih =>
      obtain ⟨outcome, later, consumed, rest, rfl⟩ := consumeAll_cons.mp run
      obtain ⟨text, ⟨dropped, inside⟩, -, taken⟩ := consume_eq consumed
      obtain ⟨gone, history⟩ := kept
      rw [List.map_cons, List.flatten_cons, ← List.append_assoc]
      have whole : seen ++ fromUtf8Lossy (xorFf wire) = gone ++ dropped ++ text := by
        rw [← history, List.append_assoc, ← inside, List.append_assoc]
      rcases List.mem_cons.mp returned with rfl | member
      · obtain ⟨front, payload, back, split, read⟩ := takeLogon_some taken
        refine ⟨gone ++ dropped ++ front, payload,
          back ++ (chunks.map fun wire => fromUtf8Lossy (xorFf wire)).flatten, ?_, read⟩
        rw [whole, split]
        simp
      · refine ih ?_ rest member
        rw [whole, ← taken]
        exact (takeLogon_suffix text).trans (List.suffix_append _ _)

theorem withoutReplacements_blank {text : Text} (blank : ∀ c ∈ text, isWhitespace c = true)
    : withoutReplacements text = text := by
  refine withoutReplacements_eq_self fun member => ?_
  exact absurd (blank _ member) (by decide)

/-- A message that is read as it was sent was cut between characters: a cut inside a character
leaves a replacement for each part.
-/
theorem wholeCharacters_of_read
    (sent : (chunks.map xorFf).flatten = toUtf8 (buildLogonMessage email))
    (read : LogonRead email {} chunks)
    : WholeCharacters chunks := by
  obtain ⟨before, last, after, outcomes, -, -, -, run, results⟩ := read
  have returned : some email ∈ outcomes.map Prod.fst := by simp [results]
  obtain ⟨⟨_, parser⟩, member, rfl⟩ := List.mem_map.mp returned
  obtain ⟨front, payload, back, decoded, trimmed⟩ :=
    consumeAll_some (List.suffix_refl []) run member
  rw [List.nil_append, ← Function.comp_def, ← List.map_map] at decoded
  obtain ⟨leading, trailing, split, blankBefore, blankAfter⟩ := exists_trim_append payload
  rw [trimmed] at split
  -- without the replacements nothing is left in front of the message, in it, or behind it
  have fewer := (@withoutReplacements_reads (chunks.map xorFf) (buildLogonMessage email) []
    (by simp) sent).length_le
  rw [decoded, split, buildLogonMessage] at fewer
  simp only [withoutReplacements_append, withoutReplacements_blank blankBefore,
    withoutReplacements_blank blankAfter, List.length_append] at fewer
  have unpadded : leading = [] ∧ trailing = [] := by
    constructor <;> apply List.eq_nil_of_length_eq_zero <;> omega
  have replaced : withoutReplacements front = [] ∧ withoutReplacements back = [] := by
    constructor <;> apply List.eq_nil_of_length_eq_zero <;> omega
  rw [withoutReplacements_eq_nil, withoutReplacements_eq_nil] at replaced
  rw [unpadded.1, unpadded.2, List.nil_append, List.append_nil] at split
  subst split
  -- the message starts and ends in ASCII
  have start : ∃ rest, toUtf8 (buildLogonMessage payload) = 0x42 :: rest := ⟨_, rfl⟩
  have stop : ∃ rest, toUtf8 (buildLogonMessage payload) = rest ++ [0x32] := by
    refine ⟨toUtf8 (logonPrefix ++ payload ++ "|V".toList), ?_⟩
    rw [buildLogonMessage, show logonSuffix = "|V".toList ++ ['2'] from rfl, ← List.append_assoc,
      toUtf8_append _ ['2']]
    rfl
  obtain ⟨_, start⟩ := start
  obtain ⟨_, stop⟩ := stop
  have head := head_lossy_reads (by decide) (sent.trans start)
  have last := getLast_lossy_reads (by decide) (sent.trans stop)
  have noFront : front = [] := by
    cases front with
    | nil => rfl
    | cons first front =>
        rw [decoded] at head
        have same := replaced.1 first (by simp)
        simp [same, replacementChar] at head
  have noBack : back = [] := by
    rcases List.eq_nil_or_concat' back with rfl | ⟨rest, final, rfl⟩
    · rfl
    · rw [decoded, ← List.append_assoc, List.getLast?_concat] at last
      have same := replaced.2 final (by simp)
      simp [same, replacementChar] at last
  rw [noFront, noBack, List.nil_append, List.append_nil] at decoded
  have fresh := reads_fresh sent (by rw [decoded]; exact le_rfl)
  intro chunk present
  exact whole_of_fresh sent fresh (xorFf chunk) (List.mem_map_of_mem present)

/-- No call panics, and the retained text stays within the limit, exactly if every chunk fits what
the chunks before it left; a message is read exactly if it is cut between characters.
-/
theorem logonParsing_iff (chunks : List Bytes)
    : ((∃ outcomes,
          consumeAll {} chunks = some outcomes
          ∧ ∀ outcome ∈ outcomes, utf8Len outcome.2.decodedText ≤ 8192)
        ↔ FitsAll {} chunks)
      ∧ ∀ email,
          Sendable email
          → chunks.flatten = xorFf (toUtf8 (buildLogonMessage email))
          → utf8Len (buildLogonMessage email) ≤ 8192
          → (LogonRead email {} chunks ↔ WholeCharacters chunks) := by
  constructor
  · rw [← consumeAll_isSome_iff]
    constructor
    · rintro ⟨outcomes, run, -⟩
      exact ⟨outcomes, run⟩
    · rintro ⟨outcomes, run⟩
      exact ⟨outcomes, run, consumeAll_length_le run⟩
  · intro email sendable cut bound
    have sent : (chunks.map xorFf).flatten = toUtf8 (buildLogonMessage email) := by
      have decoded := congrArg xorFf cut
      rw [xorFf_xorFf] at decoded
      exact (List.map_flatten).symm.trans decoded
    have message : [] ++ buildLogonMessage email = buildLogonMessage email := List.nil_append _
    have nonempty : buildLogonMessage email ≠ [] := List.cons_ne_nil _ _
    exact ⟨wholeCharacters_of_read sent,
      fun characters => logonRead_rest sendable message nonempty bound characters sent⟩

/-- An address with an accent, sent in two chunks that are cut behind the accented character. -/
theorem cutAddress_read
    : FitsAll {} []
      ∧ LogonRead ['é'] {}
          [xorFf (toUtf8 (logonPrefix ++ ['é'])), xorFf (toUtf8 logonSuffix)] := by
  refine ⟨(logonParsing_iff []).1.mp ⟨[], rfl, by simp⟩, ?_⟩
  refine ((logonParsing_iff _).2 ['é'] ⟨by decide, by decide, by decide⟩ (by decide)
    (by decide)).mpr fun chunk member => ?_
  simp only [List.mem_cons, List.not_mem_nil, or_false] at member
  rcases member with rfl | rfl
  · exact ⟨_, xorFf_xorFf _⟩
  · exact ⟨_, xorFf_xorFf _⟩

/-- A text of 8193 bytes that is cut inside a character. -/
def overlongText : Text := List.replicate 4096 'é' ++ ['a']

theorem utf8Len_replicate (count : Nat) (c : Char)
    : utf8Len (List.replicate count c) = count * c.utf8Size := by
  simp [utf8Len]

theorem overlongText_panics : consume {} (xorFf (toUtf8 overlongText)) = none := by
  have panics : ¬ Fits {} (xorFf (toUtf8 overlongText)) := by
    unfold Fits
    rw [xorFf_xorFf, fromUtf8Lossy_toUtf8]
    have total : utf8Len overlongText = 8193 := by
      rw [overlongText, utf8Len_append, utf8Len_replicate]
      rfl
    rintro (short | ⟨dropped, kept, split, size⟩)
    · exact absurd (total.symm.trans_le short) (by decide)
    · change overlongText = dropped ++ kept at split
      have one : utf8Len dropped = 1 := by
        have whole := congrArg utf8Len split
        rw [total, utf8Len_append, size] at whole
        simp only [authTextLimit] at whole
        omega
      cases dropped with
      | nil => cases one
      | cons first dropped =>
          obtain ⟨rfl, -⟩ := List.cons.inj (split : 'é' :: (List.replicate 4095 'é' ++ ['a']) = _)
          rw [utf8Len_cons] at one
          have two : Char.utf8Size 'é' = 2 := rfl
          omega
  rw [← consume_isSome_iff, Bool.not_eq_true, Option.isSome_eq_false_iff, Option.isNone_iff_eq_none]
    at panics
  exact panics

/-- An overlong text makes the parser panic, and an address that is cut inside its accented
character is not read.
-/
theorem logonParsing_fails
    : consumeAll {} [xorFf (toUtf8 overlongText)] = none
      ∧ Sendable ['é']
      ∧ ¬ LogonRead ['é'] {}
          [xorFf (toUtf8 logonPrefix ++ [0xC3]), xorFf (0xA9 :: toUtf8 logonSuffix)] := by
  refine ⟨?_, ⟨by decide, by decide, by decide⟩, fun read => ?_⟩
  · rw [consumeAll, overlongText_panics]
    rfl
  · have sent : ([xorFf (toUtf8 logonPrefix ++ [0xC3]), xorFf (0xA9 :: toUtf8 logonSuffix)].map
        xorFf).flatten = toUtf8 (buildLogonMessage ['é']) := by decide
    obtain ⟨piece, whole⟩ := wholeCharacters_of_read sent read _ List.mem_cons_self
    rw [xorFf_xorFf] at whole
    have fresh := @toUtf8_rest piece logonPrefix [0xC3] whole.symm
    exact absurd fresh (by decide)

end Emwin.Qbt.AuthParser
