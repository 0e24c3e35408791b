import Emwin.Qbt.Protocol.Codec

/-! How the feed loop runs on from each decoder state: one rule for each move. -/

namespace Emwin.Qbt.QbtProtocolDecoder
open Library

variable {externals : Externals} {config : QbtDecodeConfig} {pending : Option PendingSegment}

/-- The whole feed loop from a decoder. -/
def run (externals : Externals) (decoder : QbtProtocolDecoder)
    : List QbtFrameEvent × QbtProtocolDecoder :=
  (feedLoop externals).run decoder

/-- After a move that continues, the loop runs on from its result. -/
theorem Move.run_eq {decoder next : QbtProtocolDecoder} {events : List QbtFrameEvent}
    (move : Move externals decoder ⟨events, next, true⟩)
    : decoder.run externals = prepend events (next.run externals) := by
  have step : (feedLoop externals).step decoder = ⟨events, next, true⟩ := move.step_eq
  have more : ((feedLoop externals).step decoder).progressed = true := by rw [step]
  rw [run, (feedLoop externals).run_of_progressed more, step]
  rfl

/-- After a move that stops, its events and its decoder are the result. -/
theorem Move.run_stops {decoder next : QbtProtocolDecoder} {events : List QbtFrameEvent}
    (move : Move externals decoder ⟨events, next, false⟩)
    : decoder.run externals = (events, next) := by
  have step : (feedLoop externals).step decoder = ⟨events, next, false⟩ := move.step_eq
  have stop : ((feedLoop externals).step decoder).progressed = false := by rw [step]
  rw [run, (feedLoop externals).run_of_stopped stop, step]

/-- The sync search skips to the byte after the marker, or keeps five bytes of overlap. -/
theorem run_resync_found {buffer : Bytes} {idx : Nat}
    (found : windowPosition syncBytes buffer = some idx)
    : run externals ⟨config, buffer, .resync, pending⟩
      = run externals ⟨config, buffer.drop (idx + 6), .startFrame, pending⟩ :=
  (Move.syncFound found).run_eq

theorem run_resync_missing {buffer : Bytes}
    (missing : windowPosition syncBytes buffer = none)
    : run externals ⟨config, buffer, .resync, pending⟩
      = ([], ⟨config, buffer.drop (buffer.length - 5), .resync, pending⟩) :=
  (Move.syncMissing missing).run_stops

/-- A short buffer waits unchanged for its sync marker. -/
theorem run_resync_short {buffer : Bytes} (short : buffer.length ≤ 5)
    : run externals ⟨config, buffer, .resync, pending⟩
      = ([], ⟨config, buffer, .resync, pending⟩) := by
  have missing : windowPosition syncBytes buffer = none := by
    cases found : windowPosition syncBytes buffer with
    | none => rfl
    | some idx =>
        have bound := (windowPosition_split found).2
        simp only [syncBytes, List.length_cons, List.length_nil] at bound
        omega
  rw [run_resync_missing missing, show buffer.length - 5 = 0 by omega, List.drop_zero]

/-- Padding disappears without a trace. -/
theorem run_startFrame_padding {buffer : Bytes} (zeros : buffer.dropWhile (· == 0) = [])
    : run externals ⟨config, buffer, .startFrame, pending⟩
      = ([], ⟨config, [], .startFrame, pending⟩) := by
  have empty : run externals ⟨config, [], .startFrame, pending⟩
      = ([], ⟨config, [], .startFrame, pending⟩) :=
    (@Move.paddingOnly externals config [] pending rfl).run_stops
  have move : Move externals ⟨config, buffer, .startFrame, pending⟩ _ := .paddingOnly zeros
  by_cases some : 0 < buffer.length
  · simp only [some, decide_true] at move
    rw [move.run_eq, empty]
    rfl
  · simp only [some, decide_false] at move
    exact move.run_stops

theorem run_startFrame_frame {buffer : Bytes} {first : UInt8} {rest : Bytes}
    (skipped : buffer.dropWhile (· == 0) = first :: rest)
    : run externals ⟨config, buffer, .startFrame, pending⟩
      = run externals ⟨config, first :: rest, .frameType, pending⟩ :=
  (Move.paddingSkipped skipped).run_eq

/-- Leading zeros never matter at the start of a frame. -/
theorem run_startFrame_zeros {zeros : Bytes} (more : Bytes)
    (all : zeros.dropWhile (· == 0) = [])
    : run externals ⟨config, zeros ++ more, .startFrame, pending⟩
      = run externals ⟨config, more, .startFrame, pending⟩ := by
  have same : (zeros ++ more).dropWhile (· == 0) = more.dropWhile (· == 0) := by
    rw [List.dropWhile_append, all]
    rfl
  cases rest : more.dropWhile (· == 0) with
  | nil => rw [run_startFrame_padding (same.trans rest), run_startFrame_padding rest]
  | cons first tail => rw [run_startFrame_frame (same.trans rest), run_startFrame_frame rest]

/-- A move into the sync search runs on from there, also when nothing is left to search. -/
theorem Move.run_recovers {decoder : QbtProtocolDecoder} {events : List QbtFrameEvent}
    {rest : Bytes}
    (move : Move externals decoder ⟨events, ⟨config, rest, .resync, none⟩, !rest.isEmpty⟩)
    : decoder.run externals
      = prepend events (run externals ⟨config, rest, .resync, none⟩) := by
  cases rest with
  | nil =>
      rw [Move.run_stops move, run_resync_short (by simp)]
      simp [prepend]
  | cons first rest => exact Move.run_eq move

end Emwin.Qbt.QbtProtocolDecoder
