import Emwin.Qbt.Relay.Runtime

/-! The server list that the relay caches and sends to the clients it turns away. -/

namespace Emwin.Qbt
open Library

namespace Relay

/-- The cache changes only when the scanner has completed a frame. -/
theorem observe_wire (relay : Relay) (bytes : Bytes)
    : (relay.observe bytes).state.latestServerListWire = relay.state.latestServerListWire
      ∨ ∃ frame,
          (relay.upstream.scanner.observeWireChunk bytes).1 = some frame
          ∧ (relay.observe bytes).state.latestServerListWire = frame := by
  rw [observe_cache]
  cases (relay.upstream.scanner.observeWireChunk bytes).1 with
  | none => exact .inl rfl
  | some frame => exact .inr ⟨frame, rfl, rfl⟩

/-- A move keeps the cache, or replaces it by a frame from the scanner. -/
theorem Move.wire_framed {config : QbtRelayConfig} {relay next : Relay} {action : RelayAction}
    (move : Move config relay action next)
    (before : IsServerListWire relay.state.latestServerListWire)
    : IsServerListWire next.state.latestServerListWire := by
  cases move with
  | elsewhere sessions active wire => exact wire ▸ before
  | observed bytes =>
      rcases observe_wire relay bytes with same | ⟨frame, found, same⟩
      · exact same ▸ before
      · exact same ▸ QbtServerListWireScanner.observeWireChunk_framed found
  | accepted peer clock =>
      unfold accept
      split <;> exact before
  | served found serves => exact serves.wire ▸ before
  | finished found unfinished => exact before

/-- In every reachable state the cache holds one frame: the marker, entries without a zero
byte, and the terminator.
-/
theorem reachable_wire_framed {config : QbtRelayConfig} {relay : Relay}
    (noNul : ∀ server ∈ config.upstreamServers, '\x00' ∉ server.1)
    (run : (machine config).Reachable relay)
    : IsServerListWire relay.state.latestServerListWire := by
  refine run_invariant
    (motive := fun relay => IsServerListWire relay.state.latestServerListWire) ?_ ?_ run
  · exact buildServerListWire_framed noNul
  · intro relay action next framed _ taken
    exact (step_move taken).wire_framed framed

/-- A fresh receiver never understands the cached list: the frame comes without the sync
marker that the receiver waits for, so it emits no event at all.
-/
theorem cached_list_not_understood {config : QbtRelayConfig} {relay : Relay}
    (noNul : ∀ server ∈ config.upstreamServers, '\x00' ∉ server.1)
    (run : (machine config).Reachable relay) (externals : Externals)
    (decode : QbtDecodeConfig)
    : (QbtProtocolDecoder.feed externals (.new decode) relay.state.latestServerListWire).1 = []
      ∧ ¬ ∃ list,
          (QbtProtocolDecoder.feed externals (.new decode) relay.state.latestServerListWire).1
          = [.serverListUpdate list] := by
  have silent := QbtProtocolDecoder.feed_unsynced externals decode
    (reachable_wire_framed noNul run)
  refine ⟨silent, ?_⟩
  rintro ⟨list, update⟩
  rw [silent] at update
  cases update

/-- The relay for one upstream server, before it has read anything. -/
theorem cached_list_not_understood_start
    : (QbtProtocolDecoder.feed sampleExternals (.new {})
        (start sampleRelayConfig).state.latestServerListWire).1 = []
      ∧ ¬ ∃ list,
          (QbtProtocolDecoder.feed sampleExternals (.new {})
            (start sampleRelayConfig).state.latestServerListWire).1
          = [.serverListUpdate list] :=
  cached_list_not_understood (by decide) (.start sampleRelayConfig_starts) sampleExternals {}

/-- The list of one server `a:1`, built by the relay itself, gives a fresh receiver nothing
where one update was due.
-/
theorem own_list_unread
    : (machine sampleRelayConfig).Reachable (start sampleRelayConfig)
      ∧ (start sampleRelayConfig).state.latestServerListWire
        = buildServerListWire [("a".toList, 1)]
      ∧ (QbtProtocolDecoder.feed sampleExternals (.new {})
          (start sampleRelayConfig).state.latestServerListWire).1 = [] := by
  refine ⟨.start sampleRelayConfig_starts, rfl, ?_⟩
  decide +kernel

end Relay

end Emwin.Qbt
