import Emwin.Qbt.Relay.Traffic

/-! The relay's byte counters: what was attempted was forwarded, dropped or is in flight. -/

namespace Emwin.Qbt
open Library

/-- Nothing of the session is left to do. A task that panicked does not wait for its writer.
-/
def Session.Over (session : Session) : Prop :=
  session.phase = .ended ∨ session.phase = .panicked ∧ session.writer = .ended

namespace Relay

/-- Bytes in some writer's queue or being written. -/
def inflightBytes (relay : Relay) : Nat :=
  total relay.sessions.length fun index => (relay.inflight index).flatten.length

/-- Every attempted byte is accounted for; the counters are atomic and wrap. -/
def Balanced (relay : Relay) : Prop :=
  relay.state.metrics.bytesAttemptedTotal
  = relay.state.metrics.bytesForwardedTotal + relay.state.metrics.bytesDroppedTotal
    + UInt64.ofNat relay.inflightBytes

instance (relay : Relay) : Decidable relay.Balanced := by
  unfold Balanced
  infer_instance

/-- A write does not fail while chunks wait behind it, and no session forwards a chunk to a
writer that has ended.
-/
def Settles (relay : Relay) : RelayAction → Prop
  | .write index (.failed _) =>
      ∀ session, relay.sessions[index]? = some session → session.queue = []
  | .receive index => ¬ relay.Strands index
  | _ => True

section
variable {config : QbtRelayConfig} {relay next : Relay} {action : RelayAction} {index : Nat}

/-- The bytes in flight change with the chunks of the one session. -/
theorem Shifts.bytes {chunks : List Bytes} (shifts : Shifts relay next index chunks)
    : next.inflightBytes + (relay.inflight index).flatten.length
      = relay.inflightBytes + chunks.flatten.length := by
  have change := total_change (fun index => (relay.inflight index).flatten.length)
    (fun index => (next.inflight index).flatten.length) shifts.present
  rw [inflightBytes, shifts.length, ← shifts.here]
  apply change
  intro other distinct
  rw [shifts.elsewhere other distinct]

theorem Shifts.bytes_unmoved (shifts : Shifts relay next index (relay.inflight index))
    : next.inflightBytes = relay.inflightBytes := by
  have bytes := shifts.bytes
  omega

theorem inflightBytes_quiet (grown : relay.sessions.length ≤ next.sessions.length)
    (same : ∀ index, next.inflight index = relay.inflight index)
    : next.inflightBytes = relay.inflightBytes := by
  unfold inflightBytes
  simp only [same]
  refine total_grow grown fun index outside => ?_
  rw [inflight_of_length_le outside]
  rfl

/-- Every effect but the loss of chunks keeps the balance, by cases on the effect. -/
theorem Balanced.effect (before : relay.Balanced) (settles : relay.Settles action)
    (effect : Effect relay action next)
    : next.Balanced := by
  unfold Balanced at before ⊢
  cases effect with
  | quiet timeless idle same grown inflight =>
      rw [inflightBytes_quiet grown inflight, ← same.attempted, ← same.forwarded,
        ← same.dropped]
      exact before
  | queued index chunk attempts same shifts =>
      have bytes : next.inflightBytes = relay.inflightBytes + chunk.length := by
        have moved := shifts.bytes
        simp at moved
        omega
      rw [bytes, ← same.attempted, ← same.forwarded, ← same.dropped, UInt64.ofNat_add,
        ← UInt64.add_assoc]
      exact congrArg (· + chunkBytes chunk) before
  | refused index chunk attempts same shifts =>
      rw [shifts.bytes_unmoved, ← same.attempted, ← same.forwarded, ← same.dropped]
      simp only [QbtRelayState.addDropped, QbtRelayState.addAttempted, before]
      ac_rfl
  | lost index chunk attempts strands same shifts => exact absurd strands settles
  | wrote index chunk rest front same shifts =>
      have bytes : relay.inflightBytes = next.inflightBytes + chunk.length := by
        have moved := shifts.bytes
        simp [front] at moved
        omega
      rw [bytes, UInt64.ofNat_add] at before
      rw [← same.attempted, ← same.forwarded, ← same.dropped]
      simp only [QbtRelayState.addForwarded, before, chunkBytes]
      ac_rfl
  | failed index written chunk session found front same shifts =>
      have bytes : relay.inflightBytes = next.inflightBytes + chunk.length := by
        have moved := shifts.bytes
        simp [front, settles session found] at moved
        omega
      rw [bytes, UInt64.ofNat_add] at before
      rw [← same.attempted, ← same.forwarded, ← same.dropped]
      simp only [QbtRelayState.addDropped, before, chunkBytes]
      ac_rfl
  | ticked paused => exact before

/-- A session that is over has nothing in flight. -/
theorem inflightBytes_over (orderly : relay.Orderly)
    (ended : ∀ session ∈ relay.sessions, session.Over)
    : relay.inflightBytes = 0 := by
  unfold inflightBytes total
  refine Finset.sum_eq_zero fun index inside => ?_
  have inside := Finset.mem_range.mp inside
  have found := List.getElem?_eq_getElem inside
  have member := List.mem_of_getElem? found
  have ordered := orderly _ member
  have stopped : relay.sessions[index].writer = .ended := by
    rcases ended _ member with last | ⟨_, last⟩
    · exact ordered.writer last
    · exact last
  rw [inflight_of_found found, Session.inflight, stopped, ordered.queue stopped]
  rfl

end

-----------------------------------------------------------------------------------------
-- Whole runs
-----------------------------------------------------------------------------------------

/-- In a run that settles its chunks the counters balance in every state, and without the
bytes in flight once every session is over.
-/
theorem bytes_balance {config : QbtRelayConfig} {relay : Relay}
    (run : (machine config).Reaches Settles relay)
    : relay.Balanced
      ∧ ((∀ session ∈ relay.sessions, session.Over)
        → relay.state.metrics.bytesAttemptedTotal
          = relay.state.metrics.bytesForwardedTotal
            + relay.state.metrics.bytesDroppedTotal) := by
  have balanced : relay.Balanced := by
    refine run_invariant ?_ ?_ run
    · rfl
    · intro relay action next balanced settles taken
      exact balanced.effect settles (step_effect taken)
  have orderly : relay.Orderly := by
    refine run_invariant ?_ ?_ run
    · intro session member
      cases member
    · intro relay action next orderly _ taken
      exact orderly.step taken
  refine ⟨balanced, fun ended => ?_⟩
  rw [balanced, inflightBytes_over orderly ended]
  exact UInt64.add_zero _

/-- The relay stops, the session sees it, its writer ends and so does the session. -/
def sessionEnds : List RelayAction :=
  [.shutdown, .check 0 { instant := 1, unixSecs := 1 }, .write 0 .close, .finish 0]

/-- One chunk on its way to its client: the counters balance after the session's end. -/
theorem bytes_balance_written
    : ∃ relay,
        (machine sampleRelayConfig).Reaches Settles relay
        ∧ relay.state.metrics.bytesAttemptedTotal = 1
        ∧ relay.Balanced
        ∧ (∀ session ∈ relay.sessions, session.Over)
        ∧ relay.state.metrics.bytesAttemptedTotal
          = relay.state.metrics.bytesForwardedTotal
            + relay.state.metrics.bytesDroppedTotal := by
  have computed : ((machine sampleRelayConfig).takes (start sampleRelayConfig)
      (clientWaits ++ clientLogsOn :: upstreamAnswers ++ upstreamSends 1)).map
        (fun waiting => (waiting.sessions.map Session.writer,
          ((machine sampleRelayConfig).takes waiting
            (.receive 0 :: .write 0 .take :: .write 0 .wrote :: sessionEnds)).map
            (fun relay =>
              (relay.state.metrics.bytesAttemptedTotal, relay.sessions.map Session.phase))))
      = some ([.waiting], some (1, [.ended])) := by
    decide +kernel
  obtain ⟨waiting, taken, facts⟩ := Option.map_eq_some_iff.mp computed
  obtain ⟨writers, later⟩ := Prod.mk.inj facts
  obtain ⟨relay, ended, counts⟩ := Option.map_eq_some_iff.mp later
  obtain ⟨attempted, phases⟩ := Prod.mk.inj counts
  obtain ⟨queued, received, rest⟩ := Option.bind_eq_some_iff.mp ended
  have waits : (machine sampleRelayConfig).Reaches Settles waiting := by
    refine .takes (.start sampleRelayConfig_starts) (fun state => ?_) taken
    simp [clientWaits, clientLogsOn, upstreamAnswers, upstreamSends, Settles]
  have settles : waiting.Settles (.receive 0) := by
    rintro ⟨session, chunk, position, found, -, -, -, stopped⟩
    have writer : session.writer ∈ waiting.sessions.map Session.writer :=
      List.mem_map_of_mem (List.mem_of_getElem? found)
    rw [writers, stopped] at writer
    simp at writer
  have run : (machine sampleRelayConfig).Reaches Settles relay := by
    refine .takes (waits.step settles received) (fun state => ?_) rest
    simp [sessionEnds, Settles]
  have overall : ∀ session ∈ relay.sessions, session.Over := by
    intro session member
    have phase : session.phase ∈ relay.sessions.map Session.phase := List.mem_map_of_mem member
    rw [phases, List.mem_singleton] at phase
    exact .inl phase
  obtain ⟨balanced, closed⟩ := bytes_balance run
  exact ⟨relay, run, attempted, balanced, overall, closed overall⟩

/-- A write fails while a second chunk waits: one of the two is never counted again. -/
theorem queue_lost_uncounted
    : ∃ relay,
        (machine sampleRelayConfig).Reachable relay
        ∧ (∀ session ∈ relay.sessions, session.phase = .ended)
        ∧ ¬ relay.Balanced
        ∧ relay.state.metrics.bytesAttemptedTotal
          ≠ relay.state.metrics.bytesForwardedTotal
            + relay.state.metrics.bytesDroppedTotal := by
  have computed : ((machine sampleRelayConfig).takes (start sampleRelayConfig)
      (clientWaits ++ clientLogsOn :: upstreamAnswers ++ upstreamSends 1 ++ .receive 0
        :: upstreamSends 2 ++ [.receive 0, .write 0 .take, .write 0 (.failed 0), .shutdown,
          .check 0 { instant := 1, unixSecs := 1 }, .finish 0])).map
        (fun relay => (relay.sessions.map Session.phase, decide relay.Balanced,
          relay.state.metrics.bytesAttemptedTotal,
          relay.state.metrics.bytesForwardedTotal + relay.state.metrics.bytesDroppedTotal))
      = some ([.ended], false, 2, 1) := by
    decide +kernel
  obtain ⟨relay, taken, facts⟩ := Option.map_eq_some_iff.mp computed
  simp only [Prod.mk.injEq] at facts
  obtain ⟨phases, unbalanced, attempted, settled⟩ := facts
  refine ⟨relay, .takes (.start sampleRelayConfig_starts) (by simp) taken, ?_, ?_, ?_⟩
  · intro session member
    have phase : session.phase ∈ relay.sessions.map Session.phase := List.mem_map_of_mem member
    rwa [phases, List.mem_singleton] at phase
  · exact of_decide_eq_false unbalanced
  · rw [attempted, settled]
    decide

end Relay

end Emwin.Qbt
