import Emwin.Qbt.Relay.Runtime
import Emwin.Library.Slots

/-! Client slots of the relay: which sessions hold one, and when none is ever lost. -/

namespace Emwin.Qbt
open Library

/-- A session holds its slot from the accept loop's update to the end of its task. -/
def Session.holdsSlot (session : Session) : Bool := decide (session.phase ≠ .ended)

namespace Relay

/-- Number of sessions that hold a slot. -/
def slots (relay : Relay) : Nat := relay.sessions.countP Session.holdsSlot

/-- Number of session tasks that still run. -/
def runningSessions (relay : Relay) : Nat :=
  relay.sessions.countP fun session => session.phase.running

/-- The counter agrees with the slots, and the slots fit the limit. -/
structure SlotsCounted (config : QbtRelayConfig) (relay : Relay) : Prop where
  counted : relay.state.metrics.downstreamActiveClients.toNat = relay.slots
  bounded : relay.slots ≤ config.maxClients.toNat

/-- No session task ended by a panic. -/
def NoPanic (relay : Relay) : Prop := ∀ session ∈ relay.sessions, session.phase ≠ .panicked

/-- The bytes read from a client fit the text that its session has retained. -/
def ReadFits (relay : Relay) (action : RelayAction) : Prop :=
  ∀ index clock wire session,
    action = .read index clock (.bytes wire)
    → relay.sessions[index]? = some session
    → session.authParser.Fits wire

-----------------------------------------------------------------------------------------
-- Counting slots
-----------------------------------------------------------------------------------------

theorem observe_active (relay : Relay) (bytes : Bytes)
    : (relay.observe bytes).state.metrics.downstreamActiveClients
      = relay.state.metrics.downstreamActiveClients := by
  unfold observe
  dsimp only
  split <;> rfl

section
variable {config : QbtRelayConfig} {relay next : Relay} {action : RelayAction}

/-- Accepting takes a slot only while one is free. -/
theorem SlotsCounted.accept (before : SlotsCounted config relay) (peer : Text) (clock : Clock)
    : SlotsCounted config (relay.accept config peer clock) := by
  unfold Relay.accept Metrics.takeSlot
  by_cases free : relay.state.metrics.downstreamActiveClients < config.maxClients
  · simp only [free, if_true]
    have holds : (Session.start config relay.state.nextClientId peer relay.sent.length
        clock.instant).holdsSlot = true := by
      simp only [Session.holdsSlot, Session.start]
      split <;> rfl
    obtain ⟨counted, bounded⟩ := counted_succ before.counted free
    constructor
    · simpa only [slots, List.countP_append, List.countP_singleton, holds, if_true] using counted
    · simpa only [slots, List.countP_append, List.countP_singleton, holds, if_true] using bounded
  · simp only [free, if_false]
    exact ⟨before.counted, before.bounded⟩

/-- Every move keeps counter and slots together, by cases on the move. -/
theorem SlotsCounted.move (before : SlotsCounted config relay)
    (move : Move config relay action next)
    : SlotsCounted config next := by
  cases move with
  | elsewhere sessions active wire =>
      have same : next.slots = relay.slots := by rw [slots, sessions, slots]
      exact ⟨by rw [active, same, before.counted], same ▸ before.bounded⟩
  | observed bytes => exact ⟨observe_active relay bytes ▸ before.counted, before.bounded⟩
  | accepted peer clock => exact before.accept peer clock
  | @served index session state after found serves =>
      have same : after.holdsSlot = session.holdsSlot := by
        simp only [Session.holdsSlot, ne_eq, serves.ended]
      have count := countP_set_same found same
      constructor
      · exact serves.active ▸ before.counted.trans count.symm
      · exact count.trans_le before.bounded
  | @finished index session found unfinished =>
      have held : session.holdsSlot = true := by simpa [Session.holdsSlot] using unfinished
      have count := countP_set_released found held
        (show (session.finish relay.state).2.holdsSlot = false by
          simp [Session.holdsSlot, Session.finish])
      constructor
      · exact counted_pred (before.counted.trans count.symm)
      · exact Nat.le_of_succ_le (count.trans_le before.bounded)

/-- Sessions without a panic hold a slot exactly while they run. -/
theorem NoPanic.slots_eq (calm : relay.NoPanic) : relay.slots = relay.runningSessions := by
  apply List.countP_congr
  intro session member
  have fine := calm session member
  simp only [Session.holdsSlot, decide_eq_true_eq]
  cases phase : session.phase with
  | panicked => exact absurd phase fine
  | _ => simp [SessionPhase.running]

/-- A read that fits causes no panic, and nothing else does. -/
theorem NoPanic.move (small : config.clientBufferBytes ≤ maxPermits) (before : relay.NoPanic)
    (fits : ReadFits relay action) (move : Move config relay action next)
    : next.NoPanic := by
  cases move with
  | elsewhere sessions active wire =>
      intro session member
      exact before session (sessions ▸ member)
  | observed bytes => exact before
  | accepted peer clock =>
      unfold Relay.accept
      split
      · exact before
      · intro session member
        rcases List.mem_append.mp member with earlier | new
        · exact before session earlier
        · obtain rfl := List.mem_singleton.mp new
          simp only [Session.start, gt_iff_lt, Nat.not_lt.mpr small, if_false]
          simp
  | @served index session state after found serves =>
      intro other member
      rcases List.mem_or_eq_of_mem_set member with earlier | rfl
      · exact before other earlier
      · intro panicked
        rcases serves.panicked panicked with already | ⟨clock, wire, rfl, noisy⟩
        · exact before session (List.mem_of_getElem? found) already
        · exact noisy (fits index clock wire session rfl found)
  | @finished index session found unfinished =>
      intro other member
      rcases List.mem_or_eq_of_mem_set member with earlier | rfl
      · exact before other earlier
      · simp [Session.finish]

end

-----------------------------------------------------------------------------------------
-- Whole runs
-----------------------------------------------------------------------------------------

/-- In every run of the relay, whatever its clients send, the counter is the number of
slots held.
-/
theorem reachable_slotsCounted {config : QbtRelayConfig} {relay : Relay}
    (run : (machine config).Reachable relay)
    : SlotsCounted config.normalized relay := by
  refine run_invariant ?_ ?_ run
  · exact ⟨rfl, Nat.zero_le _⟩
  · intro relay action next counted _ taken
    exact counted.move (step_move taken)

/-- No slot is lost in a run whose reads all fit: the counter is the number of running
sessions, at most the limit, and the next client is served exactly while fewer run.
-/
theorem active_eq_running {config : QbtRelayConfig} {relay : Relay}
    (small : config.normalized.clientBufferBytes ≤ maxPermits)
    (run : (machine config).Reaches ReadFits relay)
    : relay.state.metrics.downstreamActiveClients.toNat = relay.runningSessions
      ∧ relay.runningSessions ≤ config.normalized.maxClients.toNat
      ∧ ((relay.state.metrics.takeSlot config.normalized.maxClients).isSome
        ↔ relay.runningSessions < config.normalized.maxClients.toNat) := by
  have calm : relay.NoPanic := by
    refine run_invariant ?_ ?_ run
    · intro session member
      cases member
    · intro relay action next calm fits taken
      exact calm.move small fits (step_move taken)
  have slots := reachable_slotsCounted run.reachable
  have counted := calm.slots_eq ▸ slots.counted
  refine ⟨counted, calm.slots_eq ▸ slots.bounded, ?_⟩
  rw [← counted, ← UInt64.lt_iff_toNat_lt, Metrics.takeSlot]
  split <;> simp [*]

/-- The client sends zero bytes, which decode to bytes that are not UTF-8. -/
def clientIsNoisy : List RelayAction :=
  [.read 0 { instant := 1, unixSecs := 1 } (.bytes (List.replicate 2048 0)),
    .check 0 { instant := 1, unixSecs := 1 },
    .read 0 { instant := 2, unixSecs := 2 } (.bytes (List.replicate 683 0))]

/-- A client that logs on is counted, and its relay has no further slot. -/
theorem active_eq_running_logon
    : ∃ relay,
        (machine sampleRelayConfig).Reaches ReadFits relay
        ∧ relay.runningSessions = 1
        ∧ relay.state.metrics.downstreamActiveClients.toNat = relay.runningSessions
        ∧ relay.runningSessions ≤ sampleRelayConfig.normalized.maxClients.toNat
        ∧ ((relay.state.metrics.takeSlot sampleRelayConfig.normalized.maxClients).isSome
          ↔ relay.runningSessions < sampleRelayConfig.normalized.maxClients.toNat) := by
  have computed : ((machine sampleRelayConfig).takes (start sampleRelayConfig)
      clientWaits).map (fun waiting =>
        (waiting.sessions.map Session.authParser,
          ((machine sampleRelayConfig).step waiting clientLogsOn).map runningSessions))
      = some ([{}], some 1) := by
    decide +kernel
  obtain ⟨waiting, taken, facts⟩ := Option.map_eq_some_iff.mp computed
  obtain ⟨fresh, logged⟩ := Prod.mk.inj facts
  obtain ⟨relay, read, running⟩ := Option.map_eq_some_iff.mp logged
  have waits : (machine sampleRelayConfig).Reaches ReadFits waiting := by
    refine .takes (.start sampleRelayConfig_starts) ?_ taken
    intro state action member index clock wire session reads
    rw [reads] at member
    simp [clientWaits] at member
  have fits : ReadFits waiting clientLogsOn := by
    intro index clock wire session reads found
    obtain ⟨-, -, bytes⟩ := RelayAction.read.inj reads
    have parser : session.authParser ∈ waiting.sessions.map Session.authParser :=
      List.mem_map_of_mem (List.mem_of_getElem? found)
    rw [fresh, List.mem_singleton] at parser
    rw [parser, ← ClientRead.bytes.inj bytes]
    exact .inl (by decide +kernel)
  have run := waits.step fits read
  exact ⟨relay, run, running, active_eq_running (by decide) run⟩

/-- Two noisy reads end the session by a panic: its slot stays taken and the relay refuses
everybody.
-/
theorem noise_loses_slot
    : ∃ relay,
        (machine sampleRelayConfig).Reachable relay
        ∧ relay.state.metrics.downstreamActiveClients = 1
        ∧ relay.runningSessions = 0
        ∧ relay.state.metrics.takeSlot sampleRelayConfig.normalized.maxClients = none := by
  have computed : ((machine sampleRelayConfig).takes (start sampleRelayConfig)
      (clientWaits ++ clientIsNoisy)).map (fun relay =>
        (relay.state.metrics.downstreamActiveClients, relay.runningSessions,
          relay.state.metrics.takeSlot sampleRelayConfig.normalized.maxClients))
      = some (1, 0, none) := by
    decide +kernel
  obtain ⟨relay, taken, facts⟩ := Option.map_eq_some_iff.mp computed
  simp only [Prod.mk.injEq] at facts
  exact ⟨relay, .takes (.start sampleRelayConfig_starts) (by simp) taken, facts⟩

end Relay

end Emwin.Qbt
