import Emwin.Qbt.Protocol.SelfSync

/-! What the feed loop leaves behind, and the errors that it never meets. -/

namespace Emwin.Qbt.QbtProtocolDecoder
open Library

/-- What a decoder holds between two calls of `feed`. -/
structure Quiescent (config : QbtDecodeConfig) (decoder : QbtProtocolDecoder) : Prop where
  notValidate : decoder.state ≠ .validate
  pendingBody : decoder.pending.isSome ↔ decoder.state = .blockBody
  buffered
    : match decoder.state with
      | .resync => decoder.buffer.length ≤ 5
      | .startFrame => decoder.buffer = []
      | .frameType =>
          (decoder.buffer.length = 1 ∨ decoder.buffer.length = 2)
          ∧ decoder.buffer.head? = some 0x2F
      | .blockHeader => decoder.buffer.length < 80 ∧ pfBytes <+: decoder.buffer
      | .blockBody =>
          ∃ pending,
            decoder.pending = some pending
            ∧ decoder.buffer.length < pending.length
            ∧ pending.length ≤ max 1024 config.maxV2BodySize
      | .qbtServerList => seBytes <+: decoder.buffer ∧ 0 ∉ decoder.buffer
      | .validate => False

/-- Between two passes: bounded pending segments, and the marker of the frame still buffered. -/
def Framed (config : QbtDecodeConfig) (decoder : QbtProtocolDecoder) : Prop :=
  PendingFits config decoder
  ∧ match decoder.state with
    | .frameType => decoder.buffer ≠ []
    | .blockHeader => pfBytes <+: decoder.buffer
    | .qbtServerList => seBytes <+: decoder.buffer
    | _ => True

variable {externals : Externals} {config : QbtDecodeConfig} {decoder : QbtProtocolDecoder}

/-- A pass keeps the marker until the frame is read, by cases on the moves. -/
theorem step_framed (decoder : QbtProtocolDecoder) (framed : Framed config decoder)
    : Framed config (decoder.step externals).state := by
  refine ⟨step_pendingFits decoder framed.1, ?_⟩
  have move := move_step externals decoder
  generalize decoder.step externals = pass at move ⊢
  cases move with
  | paddingSkipped => exact List.cons_ne_nil _ _
  | typeBlock marked => exact marked
  | typeServerList marked => exact marked
  | typeWaits | listWaits | headerWaits => exact framed.2
  | _ => trivial

/-- More bytes come behind the marker. -/
theorem Framed.extend (framed : Framed config decoder) (more : Bytes)
    : Framed config (decoder.extend more) := by
  obtain ⟨config, buffer, state, pending⟩ := decoder
  refine ⟨framed.1, ?_⟩
  have marked := framed.2
  cases state with
  | frameType => exact List.append_ne_nil_of_left_ne_nil marked more
  | blockHeader => exact marked.trans (List.prefix_append _ _)
  | qbtServerList => exact marked.trans (List.prefix_append _ _)
  | _ => trivial

/-- A pass that stops leaves a quiescent decoder, by cases on what a decoder waits for. -/
theorem quiescent_of_stopped (framed : Framed config decoder)
    (stopped : (decoder.step externals).progressed = false)
    : Quiescent config (decoder.step externals).state := by
  have marked := (@step_framed externals config decoder framed).2
  have resting := resting_of_stopped framed.1 stopped
  generalize (decoder.step externals).state = next at marked resting
  cases resting with
  | sync short => exact ⟨by simp, by simp, short⟩
  | start => exact ⟨by simp, by simp, rfl⟩
  | @frameType buffer short slash =>
      refine ⟨by simp, by simp, ?_⟩
      cases buffer with
      | nil => exact absurd rfl marked
      | cons first rest =>
          have head : first = 0x2F := slash first rfl
          simp only [List.length_cons] at short ⊢
          exact ⟨by omega, by simp [head]⟩
  | serverList unterminated => exact ⟨by simp, by simp, marked, unterminated⟩
  | header short => exact ⟨by simp, by simp, short, marked⟩
  | @body buffer pending short fits => exact ⟨by simp, by simp, pending, rfl, short, fits⟩

/-- No handler reports an invalid frame type, by cases on the state: a segment is pending wherever
one is looked for.
-/
theorem Framed.result_ne (framed : Framed config decoder)
    : (decoder.processBuffer externals).result ≠ .error .invalidFrameType := by
  obtain ⟨config, buffer, state, pending⟩ := decoder
  obtain ⟨⟨-, held⟩, -⟩ := framed
  cases state with
  | resync | startFrame | frameType => simp [processBuffer, processBuffer.plain]
  | qbtServerList =>
      simp only [processBuffer, processServerList]
      split
      · simp
      · next endIdx found =>
          have accepted := decodeServerList_ne_invalidFrameType (buffer.take endIdx)
          split
          · next error refused =>
              rw [refused] at accepted
              exact fun same => accepted (by simpa using same)
          · simp
  | blockHeader =>
      simp only [processBuffer, processBlockHeader]
      split
      · simp
      · have accepted := parseHeader_ne_invalidFrameType externals (buffer.take headerSize)
          config.maxV2BodySize
        split
        · next error refused =>
            rw [refused] at accepted
            exact fun same => accepted (by simpa using same)
        · simp
  | blockBody =>
      obtain ⟨segment, rfl, -⟩ := held
      simp only [processBuffer, processBlockBody]
      split <;> simp
  | validate =>
      obtain ⟨segment, rfl, -⟩ := held
      simp [processBuffer, validateAndEmit]

/-- Feeding a chunk takes finitely many passes from framed decoders, the last one of which stops. -/
theorem Framed.feed (framed : Framed config decoder) (chunk : Bytes)
    : ∃ visited,
        DrainLoop.Passes (step externals) (decoder.extend (xorFf chunk)) visited
          (decoder.feed externals chunk).2
        ∧ (∀ before ∈ visited, Framed config before)
        ∧ Framed config (decoder.feed externals chunk).2
        ∧ Quiescent config (decoder.feed externals chunk).2 := by
  obtain ⟨visited, passes⟩ := (feedLoop externals).exists_passes (decoder.extend (xorFf chunk))
  have kept := passes.invariant step_framed (framed.extend (xorFf chunk))
  obtain ⟨last, member, stopped, same⟩ := passes.stopped
  have result : (decoder.feed externals chunk).2 = (last.step externals).state := same.symm
  refine ⟨visited, passes, kept, ?_, ?_⟩
  · rw [result]
    exact step_framed last (kept last member)
  · rw [result]
    exact quiescent_of_stopped (kept last member) stopped

/-- Every reachable decoder is framed, by induction on the calls. -/
theorem Reachable.framed (reachable : Reachable externals config decoder)
    : Framed config decoder := by
  induction reachable with
  | new => exact ⟨⟨rfl, rfl⟩, trivial⟩
  | feed before chunk ih =>
      obtain ⟨-, -, -, framed, -⟩ := ih.feed chunk
      exact framed
  | reset before ih => exact ⟨⟨ih.1.1, rfl⟩, trivial⟩

/-- The feed loop of a reachable decoder ends after finitely many passes and leaves the decoder
quiescent. No pass looks for a pending segment that is not there, and none reports an invalid frame
type.
-/
theorem Reachable.feed_quiescent (reachable : Reachable externals config decoder) (chunk : Bytes)
    : ∃ visited,
        DrainLoop.Passes (step externals) (decoder.extend (xorFf chunk)) visited
          (decoder.feed externals chunk).2
        ∧ Quiescent config (decoder.feed externals chunk).2
        ∧ ∀ before ∈ visited,
            (before.state = .blockBody ∨ before.state = .validate → before.pending ≠ none)
            ∧ (before.processBuffer externals).result ≠ .error .invalidFrameType := by
  obtain ⟨visited, passes, kept, -, quiescent⟩ := reachable.framed.feed chunk
  refine ⟨visited, passes, quiescent, fun before member => ⟨?_, (kept before member).result_ne⟩⟩
  obtain ⟨⟨-, held⟩, -⟩ := kept before member
  rintro (body | validate) missing
  · rw [body] at held
    obtain ⟨segment, present, -⟩ := held
    rw [missing] at present
    cases present
  · rw [validate] at held
    obtain ⟨segment, present, -⟩ := held
    rw [missing] at present
    cases present

/-- A new decoder is fed a sync marker and two bytes of a frame. -/
theorem firstBytes_quiescent
    : (feed sampleExternals (.new {}) (xorFf (syncBytes ++ [0x2F, 0x50]))).2
      = ⟨{}, [0x2F, 0x50], .frameType, none⟩
      ∧ Quiescent {} (feed sampleExternals (.new {}) (xorFf (syncBytes ++ [0x2F, 0x50]))).2 := by
  have reachable : Reachable sampleExternals {} (.new {}) := .new
  obtain ⟨-, -, quiescent, -⟩ := reachable.feed_quiescent (xorFf (syncBytes ++ [0x2F, 0x50]))
  exact ⟨by decide, quiescent⟩

end Emwin.Qbt.QbtProtocolDecoder
