import Mathlib.Data.List.Forall2
import Emwin.Qbt.Protocol.Chunking
import Emwin.Qbt.Protocol.Frames

/-! Whatever bytes are fed, every emitted data block is a frame of the input. -/

namespace Emwin.Qbt.QbtProtocolDecoder
open Library

/-- Calls since the decoder was created or last reset: the decoded input, the events and
the decoder after them.
-/
inductive History (externals : Externals) (config : QbtDecodeConfig)
    : Bytes → List QbtFrameEvent → QbtProtocolDecoder → Prop
  | new : History externals config [] [] (.new config)
  | feed {input events decoder} (before : History externals config input events decoder)
    (chunk : Bytes)
    : History externals config (input ++ xorFf chunk)
        (events ++ (decoder.feed externals chunk).1) (decoder.feed externals chunk).2
  | reset {input events decoder} (before : History externals config input events decoder)
    : History externals config [] [] decoder.reset

/-- A contiguous range of the input: a header and the body right after it. -/
structure FrameRange where
  start : Nat
  bodyLength : Nat
  deriving DecidableEq, Repr

namespace FrameRange

def stop (range : FrameRange) : Nat := range.start + headerSize + range.bodyLength

def header (range : FrameRange) (input : Bytes) : Bytes :=
  (input.drop range.start).take headerSize

def body (range : FrameRange) (input : Bytes) : Bytes :=
  (input.drop (range.start + headerSize)).take range.bodyLength

end FrameRange

/-- The range lies inside the input and holds a valid frame for the segment. -/
structure FrameAt (externals : Externals) (config : QbtDecodeConfig) (input : Bytes)
    (range : FrameRange) (segment : QbtSegment)
    : Prop where
  inside : range.stop ≤ input.length
  frame : BlockFrame externals config (range.header input) (range.body input) segment

/-- The segments are frames of the input, in order, at increasing and disjoint ranges. -/
def Located (externals : Externals) (config : QbtDecodeConfig) (input : Bytes)
    (segments : List QbtSegment)
    : Prop :=
  ∃ ranges,
    List.Forall₂ (FrameAt externals config input) ranges segments
    ∧ ranges.Pairwise (fun left right => left.stop ≤ right.start)

variable {externals : Externals} {config : QbtDecodeConfig} {input : Bytes}
  {segments : List QbtSegment}

/-- More input after a frame leaves it where it is. -/
theorem FrameAt.append {range : FrameRange} {segment : QbtSegment}
    (located : FrameAt externals config input range segment) (more : Bytes)
    : FrameAt externals config (input ++ more) range segment := by
  have inside := located.inside
  have frame := located.frame
  simp only [FrameRange.stop] at inside
  refine ⟨by simp only [FrameRange.stop, List.length_append]; omega, ?_⟩
  have header : range.header (input ++ more) = range.header input :=
    take_drop_append more (by omega)
  have body : range.body (input ++ more) = range.body input :=
    take_drop_append more (by omega)
  rwa [header, body]

theorem Located.append (located : Located externals config input segments) (more : Bytes)
    : Located externals config (input ++ more) segments := by
  obtain ⟨ranges, frames, increasing⟩ := located
  exact ⟨ranges, frames.imp (fun _ _ frame => frame.append more), increasing⟩

theorem forall₂_stop_le {ranges : List FrameRange}
    (frames : List.Forall₂ (FrameAt externals config input) ranges segments)
    : ∀ range ∈ ranges, range.stop ≤ input.length := by
  induction frames with
  | nil => simp
  | cons frame _ ih =>
      intro range member
      rcases List.mem_cons.mp member with rfl | later
      · exact frame.inside
      · exact ih range later

/-- A frame right after the located ones is located too. -/
theorem Located.snoc {header body : Bytes} {segment : QbtSegment}
    (located : Located externals config input segments)
    (frame : BlockFrame externals config header body segment)
    : Located externals config (input ++ header ++ body) (segments ++ [segment]) := by
  obtain ⟨ranges, frames, increasing⟩ := located
  have size := frame.headerLength
  refine ⟨ranges ++ [⟨input.length, body.length⟩], ?_, ?_⟩
  · refine List.rel_append (frames.imp fun _ _ earlier => ?_) (.cons ⟨?_, ?_⟩ .nil)
    · rw [List.append_assoc]
      exact earlier.append _
    · simp only [FrameRange.stop, List.length_append]
      omega
    · have headerEq
          : FrameRange.header ⟨input.length, body.length⟩ (input ++ header ++ body)
            = header := by
        simp [FrameRange.header, ← size]
      have bodyEq
          : FrameRange.body ⟨input.length, body.length⟩ (input ++ header ++ body) = body := by
        simp [FrameRange.body, ← size]
      rwa [headerEq, bodyEq]
  · refine List.pairwise_append.mpr ⟨increasing, List.pairwise_singleton _ _, ?_⟩
    intro left member right last
    obtain rfl := List.mem_singleton.mp last
    exact forall₂_stop_le frames left member

/-- What a decoder state remembers of the input read since the last complete frame. -/
def Remembers (externals : Externals) (config : QbtDecodeConfig) (tail : Bytes)
    (state : DecoderState) (pending : Option PendingSegment)
    : Prop :=
  match state with
  | .blockBody =>
      ∃ parsed,
        pending = some parsed ∧ tail.length = headerSize
        ∧ parseHeader externals tail config.maxV2BodySize = .ok parsed
  | .validate =>
      ∃ header body parsed,
        tail = header ++ body ∧ header.length = headerSize ∧ body.length = parsed.length
        ∧ parseHeader externals header config.maxV2BodySize = .ok parsed
        ∧ pending = some (storeBody externals config.compressionPolicy parsed body)
  | _ => True

/-- The invariant of the feed loop: the input is what was located, what the state remembers
and what is still in the buffer.
-/
structure Tracked (externals : Externals) (config : QbtDecodeConfig) (input : Bytes)
    (events : List QbtFrameEvent) (decoder : QbtProtocolDecoder)
    : Prop where
  configured : decoder.config = config
  split
    : ∃ past tail,
        input = past ++ tail ++ decoder.buffer
        ∧ Located externals config past (dataBlocks events)
        ∧ Remembers externals config tail decoder.state decoder.pending

/-- A pass that only gives up bytes and emits no data block keeps the invariant. -/
theorem Tracked.gives_up {events more : List QbtFrameEvent}
    {buffer rest : Bytes} {state next : DecoderState}
    {pending pending' : Option PendingSegment}
    (tracked : Tracked externals config input events ⟨config, buffer, state, pending⟩)
    (dropped : Bytes) (cut : buffer = dropped ++ rest) (quiet : dataBlocks more = [])
    (free : next ≠ .blockBody ∧ next ≠ .validate)
    : Tracked externals config input (events ++ more) ⟨config, rest, next, pending'⟩ := by
  obtain ⟨past, tail, split, located, _⟩ := tracked.split
  refine ⟨rfl, past ++ tail ++ dropped, [], ?_, ?_, ?_⟩
  · simp [split, cut]
  · rw [dataBlocks_append, quiet, List.append_nil, List.append_assoc]
    exact located.append _
  · cases next <;> simp_all [Remembers]

/-- One pass keeps the invariant, by cases on the moves. Only reading a header, reading a
body and emitting a frame change what the state remembers.
-/
theorem step_tracked (events : List QbtFrameEvent) (decoder : QbtProtocolDecoder)
    (tracked : Tracked externals config input events decoder)
    : Tracked externals config input (events ++ (decoder.step externals).events)
        (decoder.step externals).state := by
  have move := move_step externals decoder
  generalize decoder.step externals = pass at move ⊢
  obtain rfl := tracked.configured
  cases move with
  | syncFound =>
      exact tracked.gives_up _ (List.take_append_drop _ _).symm rfl (by simp)
  | syncMissing =>
      exact tracked.gives_up _ (List.take_append_drop _ _).symm rfl (by simp)
  | @paddingSkipped config buffer pending first rest skipped =>
      have cut := (List.takeWhile_append_dropWhile (p := (· == 0)) (l := buffer)).symm
      rw [skipped] at cut
      exact tracked.gives_up _ cut rfl (by simp)
  | paddingOnly => exact tracked.gives_up _ (List.append_nil _).symm rfl (by simp)
  | typeWaits | listWaits | headerWaits =>
      exact tracked.gives_up _ (List.nil_append _).symm rfl (by simp)
  | typeUnknown => exact tracked.gives_up [_] rfl rfl (by simp)
  | typeBlock | typeServerList =>
      exact tracked.gives_up _ (List.nil_append _).symm rfl (by simp)
  | @listRead config frame rest pending list warnings body decoded =>
      refine tracked.gives_up (frame ++ [0]) (by simp) ?_ (by simp)
      exact dataBlocks_warnings warnings
  | @listRefused config frame rest pending error body refused =>
      exact tracked.gives_up (frame ++ [0]) (by simp) rfl (by simp)
  | headerRefused => exact tracked.gives_up _ rfl rfl (by simp)
  | bodyMissing =>
      exact tracked.gives_up _ (List.take_append_drop 1 _).symm rfl (by simp)
  | bodyWaits => simpa using tracked
  | @headerRead config header rest pending next size parsed =>
      obtain ⟨past, tail, split, located, _⟩ := tracked.split
      refine ⟨rfl, past ++ tail, header, ?_, ?_, next, rfl, size, parsed⟩
      · simp [split]
      · rw [List.append_nil]
        exact located.append tail
  | @bodyRead config body rest pending size =>
      obtain ⟨past, tail, split, located, remembered⟩ := tracked.split
      obtain ⟨parsed, same, tailSize, accepted⟩ := remembered
      obtain rfl := Option.some.inj same
      refine ⟨rfl, past, tail ++ body, ?_, ?_, tail, body, pending, rfl, tailSize, size,
        accepted, rfl⟩
      · simp [split]
      · rwa [List.append_nil]
  | @emitted config buffer stored =>
      obtain ⟨past, tail, split, located, remembered⟩ := tracked.split
      obtain ⟨header, body, parsed, rfl, headerSize', bodySize, accepted, same⟩ := remembered
      simp only [Option.some.injEq] at same
      subst same
      refine ⟨rfl, past ++ header ++ body, [], by simp [split], ?_, trivial⟩
      rw [dataBlocks_append, dataBlocks_append, dataBlocks_warnings, List.nil_append]
      rcases dataBlocks_emitSegment
          (storeBody externals config.compressionPolicy parsed body) with none | ⟨segment, one⟩
      · rw [none, List.append_nil, List.append_assoc]
        exact located.append _
      · rw [one]
        refine located.snoc (.of_emitted headerSize' accepted bodySize ?_)
        rw [one]
        exact List.mem_singleton_self segment

/-- Feeding keeps the invariant over the longer input, by the loop's invariant rule. -/
theorem Tracked.feed {events : List QbtFrameEvent} {decoder : QbtProtocolDecoder}
    (tracked : Tracked externals config input events decoder) (chunk : Bytes)
    : Tracked externals config (input ++ xorFf chunk)
        (events ++ (decoder.feed externals chunk).1) (decoder.feed externals chunk).2 := by
  refine (feedLoop externals).run_invariant
    (motive := Tracked externals config (input ++ xorFf chunk)) step_tracked _ _ ?_
  obtain ⟨configured, past, tail, split, located, remembered⟩ := tracked
  exact ⟨configured, past, tail, by simp [extend, split], located, remembered⟩

theorem tracked_new : Tracked externals config [] [] (.new config) where
  configured := rfl
  split := ⟨[], [], rfl, ⟨[], .nil, .nil⟩, trivial⟩

theorem History.tracked {events : List QbtFrameEvent} {decoder : QbtProtocolDecoder}
    (history : History externals config input events decoder)
    : Tracked externals config input events decoder := by
  induction history with
  | new => exact tracked_new
  | feed before chunk ih => exact ih.feed chunk
  | reset before ih =>
      obtain rfl := ih.configured
      exact tracked_new

/-- Soundness on arbitrary bytes: after any calls of `feed` since creation or the last
reset, the emitted data blocks are matched in order to increasing and disjoint ranges of the
decoded input, each an accepted header directly followed by its body, correctly numbered,
no fill file, verified against its checksum and delivered as that body.
-/
theorem dataBlocks_located (externals : Externals) (config : QbtDecodeConfig)
    (input : Bytes) (events : List QbtFrameEvent) (decoder : QbtProtocolDecoder)
    (history : History externals config input events decoder)
    : ∃ ranges,
        List.Forall₂ (FrameAt externals config input) ranges (dataBlocks events)
        ∧ ranges.Pairwise (fun left right => left.stop ≤ right.start) := by
  obtain ⟨past, tail, rfl, located, _⟩ := history.tracked.split
  rw [List.append_assoc]
  exact located.append _

/-- The frame in the sample stream is found where it stands. -/
theorem dataBlocks_located_sample
    : dataBlocks (feed sampleExternals (.new {}) (xorFf sampleStream)).1 = [sampleSegment]
      ∧ ∃ ranges,
          List.Forall₂ (FrameAt sampleExternals {} sampleStream) ranges
            (dataBlocks (feed sampleExternals (.new {}) (xorFf sampleStream)).1)
          ∧ ranges.Pairwise (fun left right => left.stop ≤ right.start) := by
  refine ⟨by decide +kernel, ?_⟩
  have located :=
    dataBlocks_located sampleExternals {} _ _ _ (.feed .new (xorFf sampleStream))
  rwa [xorFf_xorFf, List.nil_append, List.nil_append] at located

end Emwin.Qbt.QbtProtocolDecoder
