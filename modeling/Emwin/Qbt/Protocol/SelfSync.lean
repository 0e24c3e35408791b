import Emwin.Qbt.Protocol.Chunking

/-! A gap of zero bytes brings every decoder back to the start of a frame. -/

namespace Emwin.Qbt.QbtProtocolDecoder
open Library

/-- Zero bytes that end whatever a decoder waits for and leave one sync marker. -/
def gapLength (config : QbtDecodeConfig) : Nat :=
  max headerSize (max v1BodySize config.maxV2BodySize) + syncBytes.length

/-- Only an unfinished body holds a pending segment, and its length is bounded. -/
def PendingFits (config : QbtDecodeConfig) (decoder : QbtProtocolDecoder) : Prop :=
  decoder.config = config
  ∧ match decoder.state with
    | .blockBody | .validate =>
        ∃ pending,
          decoder.pending = some pending
          ∧ pending.length ≤ max v1BodySize config.maxV2BodySize
    | _ => decoder.pending = none

/-- What a decoder waits for between two calls. -/
inductive Resting (config : QbtDecodeConfig) : QbtProtocolDecoder → Prop
  | sync {buffer} (short : buffer.length ≤ 5) : Resting config ⟨config, buffer, .resync, none⟩
  | start : Resting config ⟨config, [], .startFrame, none⟩
  | frameType {buffer} (short : buffer.length < 3)
    (slash : ∀ first ∈ buffer.head?, first = 0x2F)
    : Resting config ⟨config, buffer, .frameType, none⟩
  | serverList {buffer} (unterminated : 0 ∉ buffer)
    : Resting config ⟨config, buffer, .qbtServerList, none⟩
  | header {buffer} (short : buffer.length < headerSize)
    : Resting config ⟨config, buffer, .blockHeader, none⟩
  | body {buffer pending} (short : buffer.length < pending.length)
    (fits : pending.length ≤ max v1BodySize config.maxV2BodySize)
    : Resting config ⟨config, buffer, .blockBody, some pending⟩

variable {externals : Externals} {config : QbtDecodeConfig} {decoder : QbtProtocolDecoder}

@[simp] theorem storeBody_length (externals : Externals) (policy : QbtV2CompressionPolicy)
    (pending : PendingSegment) (body : Bytes)
    : (storeBody externals policy pending body).length = pending.length := by
  simp only [storeBody]
  split
  · split <;> rfl
  · rfl

theorem parseHeader_length_le {header : Bytes} {maxV2BodySize : Nat}
    {pending : PendingSegment}
    (parsed : parseHeader externals header maxV2BodySize = .ok pending)
    : pending.length ≤ max v1BodySize maxV2BodySize := by
  rcases parseHeader_layout parsed with ⟨_, length⟩ | ⟨_, _, bound⟩
  · exact length ▸ le_max_left _ _
  · exact bound.trans (le_max_right _ _)

/-- A pass keeps pending segments bounded and drops them with their body, by cases on the
moves.
-/
theorem step_pendingFits (decoder : QbtProtocolDecoder) (fits : PendingFits config decoder)
    : PendingFits config (decoder.step externals).state := by
  have move := move_step externals decoder
  generalize decoder.step externals = pass at move ⊢
  obtain ⟨rfl, held⟩ := fits
  cases move with
  | headerRead size parsed => exact ⟨rfl, _, rfl, parseHeader_length_le parsed⟩
  | bodyRead size =>
      obtain ⟨pending, same, bound⟩ := held
      obtain rfl := Option.some.inj same
      exact ⟨rfl, _, rfl, by rwa [storeBody_length]⟩
  | bodyWaits => exact ⟨rfl, held⟩
  | listRefused | headerRefused | emitted | bodyMissing => exact ⟨rfl, rfl⟩
  | _ => exact ⟨rfl, held⟩

theorem Resting.pendingFits (resting : Resting config decoder)
    : PendingFits config decoder := by
  cases resting with
  | body short fits => exact ⟨rfl, _, rfl, fits⟩
  | _ => exact ⟨rfl, rfl⟩

/-- A pass that stops leaves a decoder that waits. -/
theorem resting_of_stopped (fits : PendingFits config decoder)
    (stopped : (decoder.step externals).progressed = false)
    : Resting config (decoder.step externals).state := by
  have move := move_step externals decoder
  generalize decoder.step externals = pass at move stopped ⊢
  obtain ⟨rfl, held⟩ := fits
  cases move with
  | syncMissing =>
      obtain rfl := held
      exact .sync (by simp only [List.length_drop]; omega)
  | paddingOnly =>
      obtain rfl := held
      exact .start
  | typeWaits short slash =>
      obtain rfl := held
      exact .frameType short slash
  | listWaits unterminated =>
      obtain rfl := held
      exact .serverList unterminated
  | headerWaits short =>
      obtain rfl := held
      exact .header short
  | bodyWaits short =>
      obtain ⟨pending, same, bound⟩ := held
      obtain rfl := Option.some.inj same
      exact .body short bound
  | listRefused | headerRefused =>
      simp only [Bool.not_eq_false', List.isEmpty_iff] at stopped
      exact .sync (by simp [stopped])
  | bodyMissing =>
      simp only [Bool.not_eq_false', List.isEmpty_iff] at stopped
      exact .sync (by simp [stopped])
  | syncFound | paddingSkipped | typeUnknown | typeBlock | typeServerList | listRead
  | headerRead | bodyRead | emitted => simp at stopped

theorem Resting.feed (resting : Resting config decoder) (chunk : Bytes)
    : Resting config (decoder.feed externals chunk).2 := by
  have fits : PendingFits config (decoder.extend (xorFf chunk)) := resting.pendingFits
  obtain ⟨last, lastFits, stopped, same⟩ :=
    (feedLoop externals).run_last step_pendingFits _ fits
  have rest : Resting config ((feedLoop externals).step last).state :=
    resting_of_stopped lastFits stopped
  rwa [← same] at rest

/-- Every reachable decoder waits, by induction on the calls. -/
theorem Reachable.resting (reachable : Reachable externals config decoder)
    : Resting config decoder := by
  induction reachable with
  | new => exact .sync (by simp)
  | feed before chunk ih => exact ih.feed chunk
  | @reset decoder before ih =>
      obtain ⟨rfl, _⟩ := ih.pendingFits
      exact .sync (by simp)

theorem dropWhile_zeros (count : Nat)
    : (List.replicate count (0 : UInt8)).dropWhile (· == 0) = [] := by
  simp

theorem run_startFrame_gap (count : Nat)
    : run externals ⟨config, List.replicate count 0, .startFrame, none⟩
      = ([], ⟨config, [], .startFrame, none⟩) :=
  run_startFrame_padding (dropWhile_zeros count)

/-- A gap after at most five searched bytes is found and skipped.
Witness: the first marker ends after the searched bytes, so only zeros are left behind it.
-/
theorem run_resync_gap (buffer : Bytes) {count : Nat} (short : buffer.length ≤ 5)
    (enough : 6 ≤ count)
    : run externals ⟨config, buffer ++ List.replicate count 0, .resync, none⟩
      = ([], ⟨config, [], .startFrame, none⟩) := by
  cases found : windowPosition syncBytes (buffer ++ List.replicate count 0) with
  | none =>
      have sync : syncBytes <:+: buffer ++ List.replicate count 0 := by
        refine ⟨buffer, List.replicate (count - 6) 0, ?_⟩
        have six : syncBytes = List.replicate 6 0 := rfl
        rw [six, List.append_assoc, ← List.replicate_add]
        congr 2
        omega
      exact absurd sync (windowPosition_eq_none_iff.mp found)
  | some idx =>
      have zeros
          : (buffer ++ List.replicate count (0 : UInt8)).drop (idx + 6)
            = List.replicate (count - (idx + 6 - buffer.length)) 0 := by
        rw [List.drop_append, List.drop_eq_nil_of_le (by omega), List.nil_append,
          List.drop_replicate]
      rw [run_resync_found found, zeros, run_startFrame_gap]

/-- A frame type of at most two bytes becomes unknown when zeros follow it. -/
theorem run_frameType_gap {buffer : Bytes} {count : Nat} (short : buffer.length < 3)
    (enough : 7 ≤ count)
    : run externals ⟨config, buffer ++ List.replicate count 0, .frameType, none⟩
      = ([], ⟨config, [], .startFrame, none⟩) := by
  obtain ⟨count, rfl⟩ : ∃ rest, count = rest + 2 := ⟨count - 2, by omega⟩
  rcases buffer with _ | ⟨first, _ | ⟨second, _ | ⟨third, rest⟩⟩⟩
  · have unknown
        : Move externals ⟨config, [] ++ List.replicate (count + 2) 0, .frameType, none⟩ _ :=
      .typeUnknown (.inl (by decide))
    rw [unknown.run_eq]
    exact run_resync_gap [] (by simp) (show 6 ≤ count + 1 by omega)
  · have unknown
        : Move externals ⟨config, [first] ++ List.replicate (count + 2) 0, .frameType, none⟩ _ :=
      .typeUnknown (.inr (by simp [pfBytes, seBytes, List.replicate_succ]))
    rw [unknown.run_eq]
    exact run_resync_gap [] (by simp) (by omega)
  · have unknown
        : Move externals
            ⟨config, [first, second] ++ List.replicate (count + 2) 0, .frameType, none⟩ _ :=
      .typeUnknown (.inr (by simp [pfBytes, seBytes, List.replicate_succ]))
    rw [unknown.run_eq]
    exact run_resync_gap [second] (by simp) (by omega)
  · simp only [List.length_cons] at short
    omega

/-- A header that a gap completes ends with a zero byte, so it is refused. -/
theorem parseHeader_gap (externals : Externals) (maxV2BodySize : Nat) (buffer : Bytes)
    {count : Nat} (some : 0 < count)
    : ∃ error,
        parseHeader externals (buffer ++ List.replicate count 0) maxV2BodySize
        = .error error := by
  cases parsed : parseHeader externals (buffer ++ List.replicate count 0) maxV2BodySize with
  | error error => exact ⟨error, rfl⟩
  | ok pending =>
      obtain ⟨captures, _, _, accepted, _⟩ := parseHeader_ok_iff.mp parsed
      obtain ⟨count, rfl⟩ := Nat.exists_eq_succ_of_ne_zero some.ne'
      rw [List.replicate_succ', ← List.append_assoc] at accepted
      exact absurd accepted HeaderCaptures.not_zero_ended

theorem replicate_cut {total : Nat} (front : Nat) (inside : front ≤ total)
    : List.replicate total (0 : UInt8)
      = List.replicate front 0 ++ List.replicate (total - front) 0 := by
  rw [← List.replicate_add]
  congr 1
  omega

/-- A long gap ends every wait, one case for each: it completes the header or body that is
waited for, terminates the server list, or breaks the frame type, and a sync marker is left
over.
-/
theorem Resting.run_gap (resting : Resting config decoder)
    : (run externals (decoder.extend (List.replicate (gapLength config) 0))).2
      = ⟨config, [], .startFrame, none⟩ := by
  have long : headerSize + 6 ≤ gapLength config := by
    simp only [gapLength, syncBytes, List.length_cons, List.length_nil]
    omega
  have longer : max v1BodySize config.maxV2BodySize + 6 ≤ gapLength config := by
    simp only [gapLength, syncBytes, List.length_cons, List.length_nil]
    omega
  simp only [headerSize] at long
  generalize gapLength config = gap at long longer ⊢
  cases resting with
  | sync short => rw [extend, run_resync_gap _ short (by omega)]
  | start => rw [extend, List.nil_append, run_startFrame_gap]
  | @frameType buffer short slash =>
      rw [extend, run_frameType_gap short (by omega)]
  | @serverList buffer unterminated =>
      obtain ⟨gap, rfl⟩ : ∃ rest, gap = rest + 1 := ⟨gap - 1, by omega⟩
      rw [extend, List.replicate_succ]
      cases decoded : decodeServerList buffer with
      | ok read =>
          rw [Move.run_eq (.listRead unterminated decoded), run_startFrame_gap]
          rfl
      | error error =>
          rw [Move.run_recovers (.listRefused unterminated decoded),
            ← List.nil_append (List.replicate gap 0), run_resync_gap [] (by simp) (by omega)]
          rfl
  | @header buffer short =>
      rw [extend, replicate_cut (headerSize - buffer.length) (by simp only [headerSize]; omega),
        ← List.append_assoc]
      obtain ⟨error, refused⟩ :=
        parseHeader_gap externals config.maxV2BodySize buffer (Nat.sub_pos_of_lt short)
      have size : (buffer ++ List.replicate (headerSize - buffer.length) 0).length
          = headerSize := by
        simp only [List.length_append, List.length_replicate]
        omega
      rw [Move.run_recovers (.headerRefused size refused),
        ← List.nil_append (List.replicate _ 0),
        run_resync_gap [] (by simp) (by simp only [headerSize]; omega)]
      rfl
  | @body buffer pending short fits =>
      rw [extend, replicate_cut (pending.length - buffer.length) (by omega),
        ← List.append_assoc]
      have size : (buffer ++ List.replicate (pending.length - buffer.length) 0).length
          = pending.length := by
        simp only [List.length_append, List.length_replicate]
        omega
      rw [Move.run_eq (.bodyRead size), Move.run_eq .emitted, run_startFrame_gap]
      rfl

/-- From the start of a frame, a stream that begins with a sync marker gives what a new
decoder gives.
-/
theorem feed_sync_eq_new {wire : Bytes} (marked : syncBytes <+: xorFf wire)
    : feed externals ⟨config, [], .startFrame, none⟩ wire
      = feed externals (.new config) wire := by
  obtain ⟨rest, marked⟩ := marked
  have searched : windowPosition syncBytes (syncBytes ++ rest) = some 0 :=
    windowPosition_of_start (List.prefix_append _ _)
  calc
    feed externals ⟨config, [], .startFrame, none⟩ wire
      = run externals ⟨config, syncBytes ++ rest, .startFrame, none⟩ := by
        rw [marked]
        rfl
    _ = run externals ⟨config, rest, .startFrame, none⟩ := run_startFrame_zeros rest rfl
    _ = run externals ⟨config, syncBytes ++ rest, .resync, none⟩ := by
        rw [run_resync_found searched]
        rfl
    _ = feed externals (.new config) wire := by
        rw [marked]
        rfl

/-- Self-synchronisation: from every reachable decoder, a gap of zero bytes leaves an empty
decoder at the start of a frame, so what follows a sync marker after the gap is decoded as
by a new decoder, however it is cut.
-/
theorem gap_resynchronises (externals : Externals) (config : QbtDecodeConfig)
    (decoder : QbtProtocolDecoder) (reachable : Reachable externals config decoder)
    : (decoder.feed externals (xorFf (List.replicate (gapLength config) 0))).2
        = ⟨config, [], .startFrame, none⟩
      ∧ ∀ chunks : List Bytes,
          syncBytes <+: xorFf chunks.flatten
          → (feedAll externals
              (decoder.feed externals (xorFf (List.replicate (gapLength config) 0))).2
              chunks).1
            = (feedAll externals (.new config) chunks).1 := by
  have settled
      : (decoder.feed externals (xorFf (List.replicate (gapLength config) 0))).2
        = ⟨config, [], .startFrame, none⟩ := by
    rw [feed, xorFf_xorFf]
    exact reachable.resting.run_gap
  refine ⟨settled, ?_⟩
  intro chunks marked
  have after := (reachable.feed (xorFf (List.replicate (gapLength config) 0))).atRest
  rw [settled] at after ⊢
  rw [after.feedAll_eq, (@Reachable.new externals config).atRest.feedAll_eq,
    feed_sync_eq_new marked]

/-- Half a header of garbage swallows no frame that follows the gap. -/
theorem gap_resynchronises_sample
    : Reachable sampleExternals {}
        (feed sampleExternals (.new {}) (xorFf (syncBytes ++ toUtf8 "/PFBROKEN".toList))).2
      ∧ (feedAll sampleExternals
          (feed sampleExternals
            (feed sampleExternals (.new {}) (xorFf (syncBytes ++ toUtf8 "/PFBROKEN".toList))).2
            (xorFf (List.replicate (gapLength {}) 0))).2
          [xorFf (syncBytes ++ toUtf8 "/ServerL".toList),
            xorFf (toUtf8 "ist/a:1".toList ++ [0])]).1
        = [.serverListUpdate { servers := [("a".toList, 1)] }] := by
  refine ⟨.feed .new _, ?_⟩
  rw [(gap_resynchronises sampleExternals {} _ (.feed .new _)).2 _ ⟨_, rfl⟩]
  decide +kernel

end Emwin.Qbt.QbtProtocolDecoder
